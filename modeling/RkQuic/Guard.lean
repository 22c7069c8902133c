import RkQuic.Ffi
import RkQuic.Outcomes

/-! The wall at the boundary, and what a refused call carries. -/
namespace RkQuic.Ffi
open Outcomes

abbrev Refusal := Status × String

abbrev Call (σ α : Type) := Body σ Refusal α

end RkQuic.Ffi
