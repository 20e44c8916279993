import Bindery.Collection.SharedList
import Bindery.Main
import Bindery.Proofs.Access
import Bindery.Proofs.AmbientFlags
import Bindery.Proofs.BaseNames
import Bindery.Proofs.CircularConstants
import Bindery.Proofs.ConstantRounds
import Bindery.Proofs.ConstructedTypes
import Bindery.Proofs.Containment
import Bindery.Proofs.DocumentText
import Bindery.Proofs.ErroneousArguments
import Bindery.Proofs.FieldInference
import Bindery.Proofs.Jumps
import Bindery.Proofs.MessageText
import Bindery.Proofs.OperandConversions
import Bindery.Proofs.ParameterPlaces
import Bindery.Proofs.Repetition
import Bindery.Proofs.ResolutionOrder
import Bindery.Proofs.ScopeQueries
import Bindery.Proofs.TableIndexes
import Bindery.Proofs.ValueKinds
import Bindery.Report.Scope
import Bindery.Report.Symbol
import Bindery.Report.Tree
