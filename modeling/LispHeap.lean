import LispHeap.Export
import LispHeap.SExpr
import LispHeap.Signature.Basic
import LispHeap.Script.Naming
import LispHeap.Script.Program
import LispHeap.Proofs.Relocation
import LispHeap.Proofs.Unambiguous
import LispHeap.Proofs.Strays
import LispHeap.Proofs.Descriptors
import LispHeap.Proofs.Interning
import LispHeap.Proofs.Building
import LispHeap.Proofs.Effects
import LispHeap.Proofs.PlainSteps
import LispHeap.Proofs.LimitedScripts
import LispHeap.Proofs.ListLayout
import LispHeap.Proofs.Appending
import LispHeap.Proofs.Equality
import LispHeap.Proofs.Association
import LispHeap.Proofs.Accessors
import LispHeap.Proofs.Consing
import LispHeap.Proofs.Arithmetic
import LispHeap.Proofs.Buffers
import LispHeap.Proofs.Outlines
import LispHeap.Proofs.Chapters
import LispHeap.Proofs.Cursors
