import IrView.Cli.FileTree
import IrView.Main
import IrView.Proofs.Cli.Request
import IrView.Proofs.Dependency.Lossless
import IrView.Proofs.Descriptor.Slices
import IrView.Proofs.Display.Focus
import IrView.Proofs.Display.Repetition
import IrView.Proofs.Dump.Revision
import IrView.Proofs.Flow.Distance
import IrView.Proofs.Flow.Heights
import IrView.Proofs.Flow.Recursion
import IrView.Proofs.Flow.Rounds
import IrView.Proofs.Flow.Subdivision
import IrView.Proofs.Flow.Termination
import IrView.Proofs.Flow.Unreached
import IrView.Proofs.Method
import IrView.Proofs.Query
import IrView.Proofs.Render.Agreement
import IrView.Proofs.Render.Decoding
import IrView.Proofs.Render.Look
import IrView.Proofs.Render.Structure
import IrView.Proofs.View.Balance
import IrView.Proofs.View.Cfg
import IrView.Proofs.View.Dependency
import IrView.Proofs.View.Detail
import IrView.Proofs.View.Listing
import IrView.Proofs.View.Runs
