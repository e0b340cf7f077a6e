import Mathlib.Data.Option.Basic
import Mathlib.Data.List.Perm.Basic
import IrView.Json.Record

/-!
# Changes that a reader does not notice

Two changes to a JSON value are of no account to the readers of records. The members of an object
may stand in another order (`Reordered`), and a record may have members that it does not know
(`Extended`). The second depends on which parts of the value are read as records, which is what a
`Shape` says.

A reader respects its shape if it gives the same result for a value and for a changed one
(`Respects`). The readers of plain values, lists and records respect their shapes if the readers of
the parts do. The work is in `Value.fields?`: from a value and a changed one it takes the same
fields, each of them unchanged or changed within its own shape.
-/

namespace IrView

namespace Json

/-! ### Changes -/

/-- What a value is read as. -/
inductive Shape where
  /-- A single datum. -/
  | plain
  | list (item : Shape)
  /-- A record with the shapes of its fields. -/
  | record (fields : List (String × Shape))

/-- The members of one object, anywhere in the value, stand in another order. -/
inductive Reordered : Value → Value → Prop
  | here {ms ms' : List (Content × Value)} (h : ms.Perm ms') : Reordered (.object ms) (.object ms')
  | item {pre post : List Value} {v v' : Value} (h : Reordered v v') :
      Reordered (.array (pre ++ v :: post)) (.array (pre ++ v' :: post))
  | member {pre post : List (Content × Value)} {key : Content} {v v' : Value}
      (h : Reordered v v') :
      Reordered (.object (pre ++ (key, v) :: post)) (.object (pre ++ (key, v') :: post))

/-- One record, anywhere in a value of the shape, has one more member, which is none of its fields.
-/
inductive Extended : Shape → Value → Value → Prop
  | here {fields : List (String × Shape)} {pre post : List (Content × Value)} {key : String}
      (extra : Value) (hkey : key ∉ fields.map Prod.fst) :
      Extended (.record fields) (.object (pre ++ post))
        (.object (pre ++ (some key, extra) :: post))
  | item {item : Shape} {pre post : List Value} {v v' : Value} (h : Extended item v v') :
      Extended (.list item) (.array (pre ++ v :: post)) (.array (pre ++ v' :: post))
  | member {fields : List (String × Shape)} {pre post : List (Content × Value)} {name : String}
      {shape : Shape} {v v' : Value} (hshape : fields.lookup name = some shape)
      (h : Extended shape v v') :
      Extended (.record fields) (.object (pre ++ (some name, v) :: post))
        (.object (pre ++ (some name, v') :: post))
  /-- The record is given by position. -/
  | position {fields : List (String × Shape)} {pre post : List Value} {name : String}
      {shape : Shape} {v v' : Value} (hname : (fields.map Prod.fst)[pre.length]? = some name)
      (hshape : fields.lookup name = some shape) (h : Extended shape v v') :
      Extended (.record fields) (.array (pre ++ v :: post)) (.array (pre ++ v' :: post))

/-- The value is changed in one of the two ways. -/
def Changed (shape : Shape) (v v' : Value) : Prop :=
  Reordered v v' ∨ Extended shape v v'

/-- The reader gives the same result for a changed value. -/
def Respects {α : Type} (shape : Shape) (read : Value → Option α) : Prop :=
  ∀ v v', Changed shape v v' → read v = read v'

/-! ### Plain values and lists -/

variable {α β : Type} {shape : Shape} {read : Value → Option α}

theorem respects_plain (harray : ∀ vs, read (.array vs) = none)
    (hobject : ∀ ms, read (.object ms) = none) : Respects .plain read := by
  rintro v v' (h | h)
  · cases h with
    | here | member => rw [hobject, hobject]
    | item => rw [harray, harray]
  · cases h

theorem Respects.map (f : α → β) (h : Respects shape read) :
    Respects shape fun v => (read v).map f :=
  fun v v' hv => congrArg (Option.map f) (h v v' hv)

theorem Respects.nullable (h : Respects shape read) : Respects shape (Value.nullable? read) := by
  have hread : ∀ v, v ≠ .null → Value.nullable? read v = (read v).map some := by
    intro v hv
    cases v <;> simp_all [Value.nullable?]
  intro v v' hv
  have hne : v ≠ .null ∧ v' ≠ .null := by
    rcases hv with h | h <;> cases h <;> simp
  rw [hread v hne.1, hread v' hne.2, h v v' hv]

theorem mapM_middle {pre post : List Value} {v v' : Value} (h : read v = read v') :
    (pre ++ v :: post).mapM read = (pre ++ v' :: post).mapM read := by
  simp only [List.mapM_append, List.mapM_cons, h]

theorem Respects.list (h : Respects shape read) : Respects (.list shape) (Value.list? read) := by
  rintro v v' (hv | hv)
  · cases hv with
    | here | member => rfl
    | item hv => exact mapM_middle (h _ _ (.inl hv))
  · cases hv with
    | item hv => exact mapM_middle (h _ _ (.inr hv))

/-! ### Fields by their names -/

variable {fields : List (String × Shape)} {names : List String}

/-- A value is unchanged or changed. -/
def Alike (shape : Shape) (v v' : Value) : Prop :=
  v = v' ∨ Changed shape v v'

/-- The given field is the same, and its value is unchanged or changed within its shape. -/
def AlikeField (fields : List (String × Shape)) (p p' : String × Value) : Prop :=
  p.1 = p'.1 ∧ ∀ shape, fields.lookup p.1 = some shape → Alike shape p.2 p'.2

theorem AlikeField.refl (p : String × Value) : AlikeField fields p p :=
  ⟨rfl, fun _ _ => .inl rfl⟩

theorem forall₂_alikeField_refl (l : List (String × Value)) :
    List.Forall₂ (AlikeField fields) l l :=
  List.forall₂_same.2 fun p _ => .refl p

/-- Fields are given in the same way, and each one is unchanged or changed within its shape. -/
structure Fields.Alike (fields : List (String × Shape)) (F F' : Fields) : Prop where
  positional : F.positional = F'.positional
  get? : ∀ name shape, fields.lookup name = some shape →
    Option.Rel (Json.Alike shape) (F.get? name) (F'.get? name)

theorem rel_lookup {l l' : List (String × Value)} (h : List.Forall₂ (AlikeField fields) l l')
    {name : String} {shape : Shape} (hshape : fields.lookup name = some shape) :
    Option.Rel (Alike shape) (l.lookup name) (l'.lookup name) := by
  induction h with
  | nil => exact .none
  | @cons p p' l l' hp _ ih =>
    obtain ⟨key, v⟩ := p
    obtain ⟨key', v'⟩ := p'
    obtain ⟨rfl, hv⟩ := hp
    rw [List.lookup_cons, List.lookup_cons]
    cases hkey : name == key with
    | true =>
      obtain rfl := beq_iff_eq.1 hkey
      exact .some (hv shape hshape)
    | false => exact ih

theorem map_fst_eq {l l' : List (String × Value)} (h : List.Forall₂ (AlikeField fields) l l') :
    l.map Prod.fst = l'.map Prod.fst := by
  induction h with
  | nil => rfl
  | cons hp _ ih => simp [hp.1, ih]

theorem lookup_eq_some_iff_mem {l : List (String × Value)} (h : (l.map Prod.fst).Nodup)
    {name : String} {v : Value} : l.lookup name = some v ↔ (name, v) ∈ l := by
  induction l with
  | nil => simp
  | cons p l ih =>
    obtain ⟨key, u⟩ := p
    rw [List.map_cons, List.nodup_cons] at h
    rw [List.lookup_cons, List.mem_cons, Prod.mk.injEq]
    cases hkey : name == key with
    | true =>
      obtain rfl := beq_iff_eq.1 hkey
      have hnew : (name, v) ∉ l := fun hmem => h.1 (List.mem_map.2 ⟨_, hmem, rfl⟩)
      simp [hnew, eq_comm]
    | false =>
      have hne := beq_eq_false_iff_ne.1 hkey
      simp [hne, ih h.2]

theorem lookup_perm {l l' : List (String × Value)} (h : l.Perm l') (hl : (l.map Prod.fst).Nodup)
    (name : String) : l.lookup name = l'.lookup name := by
  have hl' : (l'.map Prod.fst).Nodup := (h.map Prod.fst).nodup_iff.1 hl
  ext v
  rw [lookup_eq_some_iff_mem hl, lookup_eq_some_iff_mem hl', h.mem_iff]

/-! ### The fields of a record -/

/-- The fields that the members of an object give. -/
def known (names : List String) (ms : List (Content × Value)) : List (String × Value) :=
  ms.filterMap fun m => m.1.bind fun key => if key ∈ names then some (key, m.2) else none

/-- The members of an object have keys, and no field is given twice. -/
structure Sound (names : List String) (ms : List (Content × Value)) : Prop where
  keys : ∀ m ∈ ms, m.1.isSome = true
  nodup : ((known names ms).map Prod.fst).Nodup

theorem mapM_keys (ms : List (Content × Value)) :
    (ms.mapM fun (key, value) => key.map fun key => (key, value)) =
      if ∀ m ∈ ms, m.1.isSome = true then some (ms.filterMap fun m => m.1.map (·, m.2))
      else none := by
  induction ms with
  | nil => rfl
  | cons m ms ih =>
    obtain ⟨_ | key, v⟩ := m
    · simp
    · simp only [List.mapM_cons, ih, List.forall_mem_cons, Option.isSome_some, true_and]
      split <;> rfl

theorem filter_keys (names : List String) (ms : List (Content × Value)) :
    (ms.filterMap fun m => m.1.map fun key => (key, m.2)).filter (fun p => names.contains p.1) =
      known names ms := by
  induction ms with
  | nil => rfl
  | cons m ms ih =>
    obtain ⟨_ | key, v⟩ := m
    · simpa [known] using ih
    · by_cases hkey : key ∈ names <;> simpa [known, hkey] using ih

theorem fields?_object (ms : List (Content × Value)) [Decidable (Sound names ms)] :
    (Value.object ms).fields? names =
      if Sound names ms then some ⟨false, known names ms⟩ else none := by
  rw [Value.fields?, mapM_keys]
  by_cases hkeys : ∀ m ∈ ms, m.1.isSome = true
  · simp only [if_pos hkeys, Option.bind_eq_bind, Option.bind_some, filter_keys]
    by_cases hnodup : ((known names ms).map Prod.fst).Nodup
    · rw [if_pos hnodup, if_pos ⟨hkeys, hnodup⟩]
    · rw [if_neg hnodup, if_neg (mt Sound.nodup hnodup)]
  · rw [if_neg hkeys, if_neg (mt Sound.keys hkeys)]
    rfl

theorem rel_fields?_object {ms ms' : List (Content × Value)}
    (hkeys : (∀ m ∈ ms, m.1.isSome = true) ↔ ∀ m ∈ ms', m.1.isSome = true)
    (hnames : ((known names ms).map Prod.fst).Perm ((known names ms').map Prod.fst))
    (hfields : ∀ name shape, fields.lookup name = some shape →
      ((known names ms).map Prod.fst).Nodup →
      Option.Rel (Alike shape) ((known names ms).lookup name) ((known names ms').lookup name)) :
    Option.Rel (Fields.Alike fields) ((Value.object ms).fields? names)
      ((Value.object ms').fields? names) := by
  classical
  have hsound : Sound names ms ↔ Sound names ms' :=
    ⟨fun h => ⟨hkeys.1 h.keys, hnames.nodup_iff.1 h.nodup⟩,
      fun h => ⟨hkeys.2 h.keys, hnames.nodup_iff.2 h.nodup⟩⟩
  rw [fields?_object, fields?_object]
  by_cases hms : Sound names ms
  · rw [if_pos hms, if_pos (hsound.1 hms)]
    exact .some ⟨rfl, fun name shape hshape => hfields name shape hshape hms.nodup⟩
  · rw [if_neg hms, if_neg (mt hsound.2 hms)]
    exact .none

theorem rel_refl_lookup (l : List (String × Value)) (name : String) :
    Option.Rel (Alike shape) (l.lookup name) (l.lookup name) := by
  cases l.lookup name with
  | none => exact .none
  | some v => exact .some (.inl rfl)

theorem rel_fields?_perm {ms ms' : List (Content × Value)} (h : ms.Perm ms') :
    Option.Rel (Fields.Alike fields) ((Value.object ms).fields? names)
      ((Value.object ms').fields? names) := by
  have hknown : (known names ms).Perm (known names ms') := h.filterMap _
  refine rel_fields?_object (by simp only [h.mem_iff]) (hknown.map _) ?_
  -- a name has one field at most, so the order of the fields does not matter
  intro name shape _ hnodup
  rw [← lookup_perm hknown hnodup]
  exact rel_refl_lookup _ name

theorem rel_fields?_extra {pre post : List (Content × Value)} {key : String} {extra : Value}
    (hkey : key ∉ names) :
    Option.Rel (Fields.Alike fields) ((Value.object (pre ++ post)).fields? names)
      ((Value.object (pre ++ (some key, extra) :: post)).fields? names) := by
  have hknown : known names (pre ++ (some key, extra) :: post) = known names (pre ++ post) := by
    simp [known, hkey]
  refine rel_fields?_object (by simp [or_imp, forall_and]) (by rw [hknown]) ?_
  intro name shape _ _
  rw [hknown]
  exact rel_refl_lookup _ name

theorem forall₂_known {pre post : List (Content × Value)} {key : Content} {v v' : Value}
    (h : ∀ name, key = some name → AlikeField fields (name, v) (name, v')) :
    List.Forall₂ (AlikeField fields) (known names (pre ++ (key, v) :: post))
      (known names (pre ++ (key, v') :: post)) := by
  simp only [known, List.filterMap_append, List.filterMap_cons]
  refine List.rel_append (forall₂_alikeField_refl _) ?_
  -- the changed member gives no field unless its key is the name of one
  cases key with
  | none => exact forall₂_alikeField_refl _
  | some name =>
    by_cases hname : name ∈ names
    · simp only [Option.bind_some, if_pos hname]
      exact .cons (h name rfl) (forall₂_alikeField_refl _)
    · simp only [Option.bind_some, if_neg hname]
      exact forall₂_alikeField_refl _

theorem rel_fields?_member {pre post : List (Content × Value)} {key : Content} {v v' : Value}
    (h : ∀ name, key = some name → AlikeField fields (name, v) (name, v')) :
    Option.Rel (Fields.Alike fields) ((Value.object (pre ++ (key, v) :: post)).fields? names)
      ((Value.object (pre ++ (key, v') :: post)).fields? names) := by
  have hknown : List.Forall₂ (AlikeField fields) (known names (pre ++ (key, v) :: post))
      (known names (pre ++ (key, v') :: post)) := forall₂_known h
  refine rel_fields?_object (by simp [or_imp, forall_and]) (by rw [map_fst_eq hknown]) ?_
  intro name shape hshape _
  exact rel_lookup hknown hshape

theorem forall₂_zip {post : List Value} {v v' : Value} :
    ∀ {names : List String} {pre : List Value},
      (∀ name, names[pre.length]? = some name → AlikeField fields (name, v) (name, v')) →
      List.Forall₂ (AlikeField fields) (names.zip (pre ++ v :: post))
        (names.zip (pre ++ v' :: post)) := by
  intro names pre h
  induction names generalizing pre with
  | nil => exact .nil
  | cons name names ih =>
    cases pre with
    | nil => exact .cons (h name rfl) (forall₂_alikeField_refl _)
    | cons u pre => exact .cons (.refl _) (ih (by simpa using h))

theorem rel_fields?_item {pre post : List Value} {v v' : Value}
    (h : ∀ name, names[pre.length]? = some name → AlikeField fields (name, v) (name, v')) :
    Option.Rel (Fields.Alike fields) ((Value.array (pre ++ v :: post)).fields? names)
      ((Value.array (pre ++ v' :: post)).fields? names) := by
  have hzip : List.Forall₂ (AlikeField fields) (names.zip (pre ++ v :: post))
      (names.zip (pre ++ v' :: post)) := forall₂_zip h
  have hlength : (pre ++ v :: post).length = (pre ++ v' :: post).length := by simp
  simp only [Value.fields?, hlength]
  split
  · exact .some ⟨rfl, fun name shape hshape => rel_lookup hzip hshape⟩
  · exact .none

/-- **From a record and a changed one the same fields are taken, each of them unchanged or changed
within its own shape.** -/
theorem rel_fields? {v v' : Value} (h : Changed (.record fields) v v') :
    Option.Rel (Fields.Alike fields) (v.fields? (fields.map Prod.fst))
      (v'.fields? (fields.map Prod.fst)) := by
  rcases h with h | h
  · cases h with
    | here h => exact rel_fields?_perm h
    | item h => exact rel_fields?_item fun _ _ => ⟨rfl, fun _ _ => .inr (.inl h)⟩
    | member h => exact rel_fields?_member fun _ _ => ⟨rfl, fun _ _ => .inr (.inl h)⟩
  · cases h with
    | here _ hkey => exact rel_fields?_extra hkey
    | member hshape h =>
      -- the field of the name is the changed one, and its shape is the one it was changed in
      refine rel_fields?_member fun name hname => ⟨rfl, fun shape hshape' => ?_⟩
      cases hname
      cases hshape.symm.trans hshape'
      exact .inr (.inr h)
    | position hname hshape h =>
      refine rel_fields?_item fun name hname' => ⟨rfl, fun shape hshape' => ?_⟩
      cases hname.symm.trans hname'
      cases hshape.symm.trans hshape'
      exact .inr (.inr h)

/-! ### Records -/

theorem Alike.read_eq {v v' : Value} (h : Respects shape read) (hv : Alike shape v v') :
    read v = read v' := by
  rcases hv with rfl | hv
  · rfl
  · exact h v v' hv

theorem eq_of_rel {γ : Type} {r : β → β → Prop} {o o' : Option β} (h : Option.Rel r o o')
    (f : Option β → γ) (hf : ∀ a b, r a b → f (some a) = f (some b)) : f o = f o' := by
  cases h with
  | none => rfl
  | some h => exact hf _ _ h

section

variable {F F' : Fields}

theorem Fields.Alike.required (h : F.Alike fields F') (name : String)
    (hshape : fields.lookup name = some shape) (hread : Respects shape read) :
    F.required name read = F'.required name read :=
  eq_of_rel (h.get? name shape hshape) (fun given => given.bind read)
    fun _ _ hv => hv.read_eq hread

theorem Fields.getD_eq_elim (F : Fields) (name : String) (default : α) :
    F.getD name default read = (F.get? name).elim (some default) read := by
  unfold Fields.getD
  cases F.get? name <;> rfl

theorem Fields.Alike.getD (h : F.Alike fields F') (name : String)
    (hshape : fields.lookup name = some shape) (hread : Respects shape read) (default : α) :
    F.getD name default read = F'.getD name default read := by
  rw [Fields.getD_eq_elim, Fields.getD_eq_elim]
  exact eq_of_rel (h.get? name shape hshape) (fun given => given.elim (some default) read)
    fun _ _ hv => hv.read_eq hread

theorem Fields.Alike.optional (h : F.Alike fields F') (name : String)
    (hshape : fields.lookup name = some shape) (hread : Respects shape read) :
    F.optional name read = F'.optional name read := by
  unfold Fields.optional
  rw [h.positional, h.required name hshape hread.nullable, h.getD name hshape hread.nullable]

end

/-- A reader of a record respects the shapes of the fields if what it makes of them does. -/
theorem respects_record {f : Fields → Option α}
    (hread : ∀ v, read v = (v.fields? (fields.map Prod.fst)).bind f)
    (hf : ∀ F F', Fields.Alike fields F F' → f F = f F') : Respects (.record fields) read := by
  intro v v' hv
  rw [hread, hread]
  exact eq_of_rel (rel_fields? hv) (fun given => given.bind f) hf

end Json

end IrView
