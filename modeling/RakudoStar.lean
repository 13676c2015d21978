import RakudoStar.Multi.CompileTime
import RakudoStar.Multi.AllMatches
import RakudoStar.Multi.MostSpecific
import RakudoStar.SixModel.NqpClasses
import RakudoStar.Metamodel.OrderOfRoles
import RakudoStar.Parrot.HashRuns
import RakudoStar.Call.Exactness
import RakudoStar.P6opaque.Serialized
import RakudoStar.Serialization.Image
import RakudoStar.Serialization.Storage
import RakudoStar.Packfile.HeaderOnly
import RakudoStar.Packfile.Mappings
import RakudoStar.Bigint.TwosComplement
import RakudoStar.Arrays.Runs
import RakudoStar.Lazy.MapIter
import RakudoStar.QRegex.Captures
import RakudoStar.QRegex.FateOrder
import RakudoStar.Temporal.Instant
import RakudoStar.Temporal.Week
import RakudoStar.Lazy.Cross
import RakudoStar.Buffers.RoundTrip
import RakudoStar.Text.Cutting
import RakudoStar.Text.Iteration
import RakudoStar.Sorting.Quicksort
import RakudoStar.BooleanArray.Runs
import RakudoStar.Strings.Cclass
import RakudoStar.Strings.ByteSearch
import RakudoStar.Strings.SplitJoin
import RakudoStar.Strings.EscapeText
import RakudoStar.Imcc.Loops
import RakudoStar.Imcc.Sets
import RakudoStar.Multidispatch.Nearest
import RakudoStar.Multidispatch.OperatorCache
import RakudoStar.Arrays.ResizableRuns
import RakudoStar.Gc.AllocatorRuns
import RakudoStar.Gc.PointerArray
import RakudoStar.Numeric.Division
