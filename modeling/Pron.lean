import Pron.Main
import Pron.Proofs.Arithmetic
import Pron.Proofs.Counting
import Pron.Proofs.Declarations
import Pron.Proofs.HashKeys
import Pron.Proofs.Instances.Storage
import Pron.Proofs.Isolation
import Pron.Proofs.Mapping
import Pron.Proofs.Numerals
import Pron.Proofs.Privacy.Programs
import Pron.Proofs.Prompt
import Pron.Proofs.Receiver.This
import Pron.Proofs.Returns
import Pron.Proofs.Scopes
import Pron.Proofs.Syntax.Climbing
import Pron.Proofs.Syntax.Cost
import Pron.Proofs.Syntax.Recovery
import Pron.Proofs.Syntax.RoundTrip
import Pron.Proofs.Token.Layout
import Pron.Proofs.Units
