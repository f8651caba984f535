import Classwright.Ty.Reading
import Classwright.Bytecode.Source
import Classwright.Main
import Classwright.Proofs.ClassFile.Reproduction
import Classwright.Proofs.Integral.Methods
import Classwright.Proofs.Artifact.Concurrency
import Classwright.Proofs.Lowering.TextSelection
import Classwright.Proofs.Conditions.Runs
import Classwright.Proofs.ClassFile.StackMaps
import Classwright.Proofs.ClassFile.Interning
import Classwright.Proofs.Lowering.Unrelated
import Classwright.Proofs.Frame.Joins
import Classwright.Proofs.Frame.Idempotence
import Classwright.Proofs.Lowering.Slots
import Classwright.Proofs.Decl.Building
import Classwright.Proofs.Lowering.Loading
import Classwright.Proofs.ClassFile.Erasure
import Classwright.Proofs.Ty
import Classwright.Proofs.Bytecode.Buffer
