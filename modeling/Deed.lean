import Deed.Typeck.PromiseSound
import Deed.Wasm.Roundtrip
import Deed.Rt.ChunksSound
import Deed.Eval.ShrinkKeeps
import Deed.Eval.ShrinkEnds
import Deed.Effects.CyclesSound
import Deed.Wasm.Accepted
import Deed.Eval.Finally
import Deed.Lowering.CaptureSound
import Deed.Fetch.CacheSafe
import Deed.Codegen.Arithmetic
import Deed.Codegen.Supplied
import Deed.Codegen.MatchAgree
import Deed.Driver.InputsClosure
import Deed.Driver.ReviewClean
import Deed.Mir.ReuseRounds
import Deed.Stdlib.MapSound
import Deed.Stdlib.SetSound
import Deed.Runtime.Lists
import Deed.Abi.Crossing
import Deed.Stdlib.SortingSound
import Deed.Fetch.Sha256Sound
import Deed.Stdlib.StringsSound
import Deed.Stdlib.DatesText
import Deed.Abi.CanonicalSound
import Deed.Typeck.Dividing
import Deed.Lsp.PositionSound
import Deed.Lsp.UriSound
import Deed.Resolve.NearestSound
import Deed.Cli.LockSound
import Deed.Lsp.ProtocolSound
import Deed.Typeck.SubjectsSound
import Deed.Codegen.SitesSound
import Deed.Abi.LiftingSound
import Deed.Cli.PropertySound
import Deed.Wasm.Safety
