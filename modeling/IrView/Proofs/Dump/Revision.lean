import Mathlib
import IrView.Dump
import IrView.Proofs.Json.Change
import IrView.Proofs.Json.Reading

/-!
# Revised dumps

What is loaded depends on what the dump says, and not on how it says it (`ofText_revised`). Two
texts load alike if they differ in white space and escapes only, in the order of the members of
objects, or in members that the record does not know.

The part of the reader that turns a text into a value is covered by `Json.parse_eq_some_iff`: a text
is read as the one value that it is a way to write. The rest are the readers of the records, each of
which respects the shape that is given for it here. The condition on members is on their keys as
texts: a key that spells no text is refused in every record (`ofText_unpaired_key`).
-/

namespace IrView

namespace Dump

open Json

/-! ### Plain values -/

theorem respects_int? : Respects .plain Value.int? :=
  respects_plain (fun _ => rfl) fun _ => rfl

theorem respects_string? : Respects .plain Value.string? :=
  respects_plain (fun _ => rfl) fun _ => rfl

theorem respects_bool? : Respects .plain Value.bool? :=
  respects_plain (fun _ => rfl) fun _ => rfl

theorem respects_float? : Respects .plain Value.float? :=
  respects_plain (fun _ => rfl) fun _ => rfl

theorem respects_readFlag : Respects .plain readFlag :=
  respects_plain (fun _ => rfl) fun _ => rfl

/-! ### Dependencies -/

/-- The fields of a pass or an artifact. -/
def dependencyNodeFields : List (String × Shape) :=
  [("id", .plain), ("name", .plain), ("pass", .plain), ("artifact", .plain), ("enabled", .plain)]

theorem respects_readDependencyNode :
    Respects (.record dependencyNodeFields) readDependencyNode := by
  refine respects_record (fun _ => rfl) fun F F' h => ?_
  rw [h.required "id" rfl respects_int?, h.getD "name" rfl respects_string?,
    h.getD "pass" rfl respects_readFlag, h.getD "artifact" rfl respects_readFlag,
    h.getD "enabled" rfl respects_readFlag]

/-- The fields of an edge of either graph. -/
def edgeFields : List (String × Shape) :=
  [("from", .plain), ("to", .plain), ("type", .plain), ("trueBranch", .plain)]

theorem respects_readEdge : Respects (.record edgeFields) readEdge := by
  refine respects_record (fun _ => rfl) fun F F' h => ?_
  rw [h.required "from" rfl respects_int?, h.required "to" rfl respects_int?,
    h.getD "type" rfl respects_string?, h.optional "trueBranch" rfl respects_bool?]

theorem respects_readDependencyEdge : Respects (.record edgeFields) readDependencyEdge :=
  respects_readEdge.map _

/-- The fields of the dependency graph. -/
def dependenciesFields : List (String × Shape) :=
  [("nodes", .list (.record dependencyNodeFields)), ("edges", .list (.record edgeFields))]

theorem respects_readDependencies :
    Respects (.record dependenciesFields) readDependencies := by
  refine respects_record (fun _ => rfl) fun F F' h => ?_
  rw [h.getD "nodes" rfl respects_readDependencyNode.list,
    h.getD "edges" rfl respects_readDependencyEdge.list]

/-! ### Instructions -/

/-- The fields of an instruction. -/
def nodeFields : List (String × Shape) :=
  [("id", .plain), ("name", .plain), ("type", .plain), ("BB", .plain), ("root", .plain),
    ("operands", .list .plain), ("value", .plain), ("condition", .plain), ("sideEffects", .plain)]

theorem respects_readNode : Respects (.record nodeFields) readNode := by
  refine respects_record (fun _ => rfl) fun F F' h => ?_
  rw [h.required "id" rfl respects_int?, h.getD "name" rfl respects_string?,
    h.getD "type" rfl respects_string?, h.optional "BB" rfl respects_int?,
    h.getD "root" rfl respects_bool?.nullable, h.getD "operands" rfl respects_int?.list.nullable,
    h.optional "value" rfl respects_float?, h.optional "condition" rfl respects_string?,
    h.optional "sideEffects" rfl respects_bool?]

/-- The fields of the high-level form. -/
def hirFields : List (String × Shape) :=
  [("nodes", .list (.record nodeFields)), ("edges", .list (.record edgeFields))]

theorem respects_readHir : Respects (.record hirFields) readHir := by
  refine respects_record (fun _ => rfl) fun F F' h => ?_
  rw [h.getD "nodes" rfl respects_readNode.list, h.getD "edges" rfl respects_readEdge.list]

/-- The fields of a machine instruction. -/
def instructionFields : List (String × Shape) :=
  [("id", .plain), ("name", .plain), ("type", .plain), ("BB", .plain), ("result", .plain),
    ("operands", .list .plain), ("successors", .list .plain)]

theorem respects_readInstruction : Respects (.record instructionFields) readInstruction := by
  refine respects_record (fun _ => rfl) fun F F' h => ?_
  rw [h.required "id" rfl respects_int?, h.getD "name" rfl respects_string?,
    h.getD "type" rfl respects_string?, h.getD "BB" rfl respects_string?,
    h.optional "result" rfl respects_string?, h.optional "operands" rfl respects_string?.list,
    h.optional "successors" rfl respects_string?.list]

/-- The fields of the low-level form. -/
def lirFields : List (String × Shape) :=
  [("instructions", .list (.record instructionFields))]

theorem respects_readLir : Respects (.record lirFields) readLir := by
  refine respects_record (fun _ => rfl) fun F F' h => ?_
  rw [h.getD "instructions" rfl respects_readInstruction.list]

/-! ### Methods -/

/-- The fields of a pass. -/
def passFields : List (String × Shape) :=
  [("name", .plain), ("time", .plain), ("HIR", .record hirFields), ("LIR", .record lirFields)]

theorem respects_readPass : Respects (.record passFields) readPass := by
  refine respects_record (fun _ => rfl) fun F F' h => ?_
  rw [h.getD "name" rfl respects_string?, h.getD "time" rfl respects_float?,
    h.optional "HIR" rfl respects_readHir, h.optional "LIR" rfl respects_readLir]

/-- The fields of a method. -/
def methodFields : List (String × Shape) :=
  [("class", .plain), ("method", .plain), ("desc", .plain),
    ("passDependencyGraph", .record dependenciesFields), ("passes", .list (.record passFields))]

/-- What a dump is read as. -/
def methodShape : Shape :=
  .record methodFields

theorem respects_readMethod : Respects methodShape readMethod := by
  refine respects_record (fun _ => rfl) fun F F' h => ?_
  rw [h.getD "class" rfl respects_string?, h.getD "method" rfl respects_string?,
    h.getD "desc" rfl respects_string?,
    h.getD "passDependencyGraph" rfl respects_readDependencies,
    h.getD "passes" rfl respects_readPass.list]

/-! ### Texts -/

/-- A text is revised in one of the ways that are of no account. -/
inductive Revised : String → String → Prop
  /-- The same value is written in another way. -/
  | rewritten {v : Value} {t t' : String} (h : Written v t) (h' : Written v t') : Revised t t'
  /-- The members of an object stand in another order. -/
  | reordered {v v' : Value} {t t' : String} (h : Written v t) (h' : Written v' t')
      (hv : Reordered v v') : Revised t t'
  /-- A record has one more member, which is none of its fields. -/
  | added {v v' : Value} {t t' : String} (h : Written v t) (h' : Written v' t')
      (hv : Extended methodShape v v') : Revised t t'
  /-- A record has one such member less. -/
  | removed {v v' : Value} {t t' : String} (h : Written v t) (h' : Written v' t')
      (hv : Extended methodShape v' v) : Revised t t'

theorem read?_of_written {v : Value} {t : String} (h : Written v t) :
    read? (.ofString t) = readMethod v := by
  rw [read?, parse_eq_some_iff.2 h, Option.bind_some]

theorem read?_of_revised {t t' : String} (h : Revised t t') :
    read? (.ofString t') = read? (.ofString t) := by
  cases h with
  | rewritten h h' => rw [read?_of_written h, read?_of_written h']
  | reordered h h' hv =>
    rw [read?_of_written h, read?_of_written h', respects_readMethod _ _ (.inl hv)]
  | added h h' hv =>
    rw [read?_of_written h, read?_of_written h', respects_readMethod _ _ (.inr hv)]
  | removed h h' hv =>
    rw [read?_of_written h, read?_of_written h', respects_readMethod _ _ (.inr hv)]

theorem exists_written_of_ofText {t : String} {m : Method} (h : ofText t = .ok m) :
    ∃ v, Written v t := by
  unfold ofText at h
  cases hread : read? (.ofString t) with
  | none => simp [hread] at h
  | some m' =>
    obtain ⟨v, hv, -⟩ := Option.bind_eq_some_iff.1 hread
    exact ⟨v, parse_eq_some_iff.1 hv⟩

/-- **A dump loads as the same method however it is written.** If a text is loaded, it is a way to
write one value, and every text that comes from it by any number of revisions is loaded as an equal
method. -/
theorem ofText_revised (t : String) (m : Method) (h : ofText t = .ok m) :
    (∃! v, Written v t) ∧ ∀ t', Relation.ReflTransGen Revised t t' → ofText t' = .ok m := by
  obtain ⟨v, hv⟩ := exists_written_of_ofText h
  refine ⟨⟨v, hv, fun v' hv' => written_unique hv' hv⟩, fun t' hchain => ?_⟩
  have hread : read? (.ofString t') = read? (.ofString t) := by
    induction hchain with
    | refl => rfl
    | tail _ hlast ih => rw [read?_of_revised hlast, ih]
  rw [ofText, hread]
  exact h

/-- A member is added and a key escaped, and then the members are put in another order. -/
theorem ofText_revised_escaped :
    ofText "\x7b\"class\":\"A\",\"desc\":\"D\"\x7d" = .ok ⟨"A", "", "D", ⟨[], []⟩, []⟩ ∧
      ofText "\x7b \"desc\": \"D\", \"x\": [null], \"cl\\u0061ss\": \"A\" \x7d" =
        .ok ⟨"A", "", "D", ⟨[], []⟩, []⟩ := by
  have hplain : Written
      (.object ([(some "class", .ofString "A")] ++ [(some "desc", .ofString "D")]))
      "\x7b\"class\":\"A\",\"desc\":\"D\"\x7d" := parse_eq_some_iff.1 (by cbv)
  have hadded : Written
      (.object ([(some "class", .ofString "A")] ++
        (some "x", .array [.null]) :: [(some "desc", .ofString "D")]))
      "\x7b\"cl\\u0061ss\":\"A\",\"x\":[null],\"desc\":\"D\"\x7d" := parse_eq_some_iff.1 (by cbv)
  have hordered : Written
      (.object [(some "desc", .ofString "D"), (some "x", .array [.null]),
        (some "class", .ofString "A")])
      "\x7b \"desc\": \"D\", \"x\": [null], \"cl\\u0061ss\": \"A\" \x7d" :=
    parse_eq_some_iff.1 (by cbv)
  have hread : ofText "\x7b\"class\":\"A\",\"desc\":\"D\"\x7d" =
      .ok ⟨"A", "", "D", ⟨[], []⟩, []⟩ := by cbv
  have hchain : Relation.ReflTransGen Revised "\x7b\"class\":\"A\",\"desc\":\"D\"\x7d"
      "\x7b \"desc\": \"D\", \"x\": [null], \"cl\\u0061ss\": \"A\" \x7d" := by
    refine .tail (.tail .refl (.added hplain hadded ?_)) (.reordered hadded hordered ?_)
    · exact .here (.array [.null]) (by decide)
    · exact .here (List.reverse_perm _).symm
  exact ⟨hread, (ofText_revised _ _ hread).2 _ hchain⟩

/-- A record with a key that spells no text is refused. -/
theorem readMethod_unpaired {ms : List (Content × Value)} {v : Value} (h : (none, v) ∈ ms) :
    readMethod (.object ms) = none := by
  classical
  have hkeys : ¬ Sound (methodFields.map Prod.fst) ms := by
    intro hms
    cases hms.keys _ h
  have hfields : (Value.object ms).fields? (methodFields.map Prod.fst) = none := by
    rw [fields?_object, if_neg hkeys]
  exact congrArg (Option.bind · _) hfields

/-- The key of the added member is half of a surrogate pair, and the text is refused. -/
theorem ofText_unpaired_key :
    ofText "\x7b\x7d" = .ok ⟨"", "", "", ⟨[], []⟩, []⟩ ∧ Written (.object []) "\x7b\x7d" ∧
      Written (.object [(none, .ofInt 1)]) "\x7b\"\\ud83d\":1\x7d" ∧
      ofText "\x7b\"\\ud83d\":1\x7d" = .error (fault.inOperation "load::from_json") := by
  have hplain : Written (.object []) "\x7b\x7d" := parse_eq_some_iff.1 (by cbv)
  have hadded : Written (.object [(none, .ofInt 1)]) "\x7b\"\\ud83d\":1\x7d" :=
    parse_eq_some_iff.1 (by cbv)
  refine ⟨by cbv, hplain, hadded, ?_⟩
  rw [ofText, read?_of_written hadded, readMethod_unpaired (List.mem_singleton.2 rfl)]

end Dump

end IrView
