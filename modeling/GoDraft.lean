import GoDraft.Main
import GoDraft.Proofs.Batch.Frames
import GoDraft.Proofs.Batch.Outputs
import GoDraft.Proofs.Batch.Pruning
import GoDraft.Proofs.Body.InertLiterals
import GoDraft.Proofs.Body.Nesting
import GoDraft.Proofs.Body.Readings
import GoDraft.Proofs.Body.Tidiness
import GoDraft.Proofs.Draft
import GoDraft.Proofs.Go.FieldNames
import GoDraft.Proofs.Go.Imports
import GoDraft.Proofs.Go.Receiver
import GoDraft.Proofs.Go.StatementLayout
import GoDraft.Proofs.Java.FieldComments
import GoDraft.Proofs.Java.MethodBraces
import GoDraft.Proofs.Java.ParamLists
import GoDraft.Proofs.Java.RoundTrip
