import Mathlib.Data.List.GetD
import Mcpp.Component
import Mcpp.VerifyToken

/-! The token of a player over its challenges. The request of the nth online login start
carries all the characters drawn so far, and from the 512th on it carries no token. -/
namespace Mcpp.TokenGrowth
open Buffers PacketVisitor Packets Base128 Wire ClientConnection MCPlayer Run Component Challenge VerifyToken

variable {env : IGlobalEnvironment} {e : Event} {s t init : Session} {events : List Event} {draws : List Bytes}

def request : Exchange → Option Bytes
  | .requested token => some token
  | .accepted _ => none

/- The tokens of the requests queued on the connection, in order. -/
def requests (s : Session) : List Bytes := (exchanges s).filterMap request

instance : Decidable (Challenges env e s) :=
  match e with
  | .packet payload _ _ _ =>
    inferInstanceAs (Decidable (s.player.state = .login ∧ payload.packetId = 0 ∧ env.isOnline = true))
  | .completion .. => inferInstanceAs (Decidable False)

/- A second login start, which draws other characters. -/
def again : Event := .packet ⟨some steveStart, 0, 24⟩ (fun _ => 0) (.ofWords 0 0) fun _ => Fin.last 61

end Mcpp.TokenGrowth
