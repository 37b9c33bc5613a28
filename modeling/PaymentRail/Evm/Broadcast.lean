import PaymentRail.Evm.Calls
import PaymentRail.Signer.Keyring
import PaymentRail.Table.Matching

/-!
# From the limit of a key to the chain

The limit of a key bounds what is broadcast with it.  The signer counts what it signs, each signed
transaction reaches the one submission that asked for it, and a submission sends it at most once and as
it was meant.
-/

namespace PaymentRail.Evm

open Transaction

/-- What the transactions that were sent for a key move together. -/
def Network.broadcast (net : Network) (keyID : String) : ℤ :=
  ((net.sent.filter (·.keyID = keyID)).map (·.tx.inner.moved)).sum

/-- A transfer of the token of an adapter, as an intent asks for it. -/
structure TransferOf (a : Adapter) (intent : PaymentIntent) (tx : Signer.DynamicFeeTx) : Prop where
  amount : ∃ amount, intent.amount = some amount ∧ 0 < amount ∧ tx.moved = amount ∧
    tx.data = transferCalldata (Address.ofHex intent.to) amount.toNat
  token : tx.to = some a.token
  value : tx.value = some 0
  chain : tx.chainID = a.chainID

section Broadcast

variable {eth : Signer.Ethereum} {keccak : List UInt8 → List UInt8} {kr : Signer.Keyring}
  {net : Network} {a : Adapter} {intent : PaymentIntent} {r : Signer.SignRequest}

theorem moved_of_calldata {tx : Signer.DynamicFeeTx} {recipient : Address} {amount : ℕ}
    (hdata : tx.data = transferCalldata recipient amount) (hlt : amount < 2 ^ 256) :
    tx.moved = (amount : ℤ) := by
  have hlength := length_transferCalldata recipient amount
  have hne : tx.data ≠ [] := by
    rw [hdata]
    intro hnil
    rw [hnil] at hlength
    cases hlength
  have hpow : amount < 256 ^ 32 := lt_of_lt_of_eq hlt (by norm_num)
  rw [Signer.DynamicFeeTx.moved, if_neg hne, hdata, amount_transferCalldata,
    BigEndian.read_bytes_of_lt hpow]

/-- What the signer is asked for on behalf of an intent. -/
theorem transferOf_meantBy (h : MeantBy a intent r) :
    r.keyID = a.keyID ∧ TransferOf a intent r.tx := by
  obtain ⟨_, ⟨data, gp, nonce, hprepare, rfl⟩, hdecode⟩ := h
  obtain ⟨amount, hamount, ⟨hpos, hlt⟩, -, rfl⟩ := prepare_ok hprepare
  unfold toDomainRequest at hdecode
  split at hdecode
  · cases hdecode
  obtain ⟨value, hvalue, hdecode⟩ := bind_eq_ok.mp hdecode
  obtain ⟨maxFee, -, hdecode⟩ := bind_eq_ok.mp hdecode
  obtain ⟨maxTip, -, hdecode⟩ := bind_eq_ok.mp hdecode
  cases hdecode
  have hzero : value = 0 := (Except.ok.inj hvalue).symm
  have hmoved : amount.toNat < 2 ^ 256 := by omega
  refine ⟨rfl, ⟨amount, hamount, hpos, ?_, rfl⟩, congrArg some (Address.ofBytes_bytes a.token),
    congrArg some hzero, rfl⟩
  rw [moved_of_calldata rfl hmoved, Int.toNat_of_nonneg hpos.le]

/-- A transaction that was sent is the transfer of its intent, signed with the key of its adapter. -/
theorem transferOf_sent (h : NetworkInv eth keccak kr net) {d : Dispatch} (hd : d ∈ net.sent) :
    ∃ client call answer key, net.clients d.client = some client ∧
      d.keyID = client.adapter.keyID ∧ TransferOf client.adapter client.intent d.tx.inner ∧
      net.callers call = some d.client ∧ (call, answer) ∈ net.results ∧
      answer.request.keyID = d.keyID ∧ answer.moved eth = d.tx.inner.moved ∧
      kr.lookup d.keyID = some key ∧ key.chainID = client.adapter.chainID := by
  obtain ⟨client, howned⟩ := h.sent d hd
  obtain ⟨call, answer, signed, -, hcaller, hanswer, hmeant, hresult, htx⟩ := howned.call
  obtain ⟨hkey, htransfer⟩ := transferOf_meantBy hmeant
  have hmem : answer ∈ net.signer.answers := by
    rw [← h.orderly.answers]
    exact List.mem_map_of_mem hanswer
  obtain ⟨key, tx, hlookup, hraw, hinner, hchain, -⟩ :=
    (Signer.inv_of_reaches h.signer).signed answer hmem signed hresult
  obtain rfl := Except.ok.inj (hraw.symm.trans htx)
  rw [← hinner] at htransfer
  have hmoved : answer.moved eth = d.tx.inner.moved := by
    simp only [Signer.Answer.moved, hresult, htx]
  refine ⟨client, call, answer, key, howned.present, howned.keyID, htransfer, hcaller, hanswer,
    hkey.trans howned.keyID.symm, hmoved, ?_, ?_⟩
  · rw [howned.keyID, ← hkey, hlookup]
  · rw [← hchain, ← htransfer.chain, hinner]
    rfl

theorem moved_nonneg (h : NetworkInv eth keccak kr net) {call : ℕ} {answer : Signer.Answer}
    (hanswer : (call, answer) ∈ net.results) : 0 ≤ answer.moved eth := by
  unfold Signer.Answer.moved
  split
  · exact le_rfl
  next tx hresult =>
  split
  · exact le_rfl
  next signed hraw =>
  have hmem : answer ∈ net.signer.answers := by
    rw [← h.orderly.answers]
    exact List.mem_map_of_mem hanswer
  obtain ⟨key, signed', -, hraw', hinner, -⟩ :=
    (Signer.inv_of_reaches h.signer).signed answer hmem tx hresult
  obtain rfl := Except.ok.inj (hraw.symm.trans hraw')
  obtain ⟨value, hvalue⟩ := h.orderly.value call _ (.inr ⟨answer, hanswer, rfl⟩)
  rw [hinner, Signer.DynamicFeeTx.moved]
  split
  · change (0 : ℤ) ≤ answer.request.value.getD 0
    rw [hvalue]
    exact Int.natCast_nonneg value
  · exact Int.natCast_nonneg _

/-- What was sent for a key is among what was signed for it. -/
theorem broadcast_le_spent (h : NetworkInv eth keccak kr net) (keyID : String) :
    net.broadcast keyID ≤ net.signer.spent keyID := by
  have hanswers : net.signer.movedTotal eth keyID =
      ((net.results.filter fun pair ↦ pair.2.request.keyID = keyID).map
        fun pair ↦ pair.2.moved eth).sum := by
    rw [Signer.State.movedTotal, ← h.orderly.answers, List.filter_map, List.map_map]
    rfl
  have hapart : (net.sent.filter (·.keyID = keyID)).Pairwise fun d d' ↦ ∀ pair : ℕ × Signer.Answer,
      net.callers pair.1 = some d.client → ¬net.callers pair.1 = some d'.client := by
    refine ((List.pairwise_map.mp h.once).filter _).imp fun hne pair hfirst hsecond ↦ hne ?_
    exact Option.some.inj (hfirst.symm.trans hsecond)
  rw [(Signer.inv_of_reaches h.signer).spent, hanswers]
  refine Table.sum_le_of_matching (fun pair hpair ↦ ?_) hapart fun d hd ↦ ?_
  · exact moved_nonneg h (List.mem_filter.mp hpair).1
  · obtain ⟨hsent, hkey⟩ := List.mem_filter.mp hd
    obtain ⟨client, call, answer, key, -, -, -, hcaller, hanswer, hrequest, hmoved, -⟩ :=
      transferOf_sent h hsent
    refine ⟨(call, answer), List.mem_filter.mpr ⟨hanswer, ?_⟩, hcaller, hmoved.symm⟩
    rw [decide_eq_true_eq] at hkey ⊢
    exact hrequest.trans hkey

/-- With a keyring that was loaded from a manifest, over every run of the signer and everyone who calls
it, whatever the node answers and whichever connections are lost: every transaction that a submission
sends is the transfer of its intent, no submission sends two, and for each key what was sent adds up to
no more than the spend limit of its entry in the manifest, on the chain of the entry. -/
theorem broadcasts_within_limits {host : Signer.Host} {path : String}
    (hload : Signer.loadKeyring host path = .ok kr) (h : Reached eth keccak kr net) :
    (∀ d ∈ net.sent, ∃ client, net.clients d.client = some client ∧
      d.keyID = client.adapter.keyID ∧ TransferOf client.adapter client.intent d.tx.inner) ∧
    (net.sent.map Dispatch.client).Nodup ∧
    ∃ entries, Signer.readManifest host path = .ok entries ∧ ∀ d ∈ net.sent,
      ∃ e ∈ entries, e.keyID = d.keyID ∧ e.chainID = d.tx.inner.chainID ∧
        ∃ limit, Ctl.setString e.spendLimit = some limit ∧ net.broadcast d.keyID ≤ limit := by
  have hinv := networkInv_of_reached h
  obtain ⟨entries, hentries, -, -, -, hlookup⟩ := Signer.loadKeyring_eq_ok hload
  refine ⟨fun d hd ↦ ?_, hinv.once, entries, hentries, fun d hd ↦ ?_⟩
  · obtain ⟨client, call, answer, key, hclient, hkey, htransfer, -⟩ := transferOf_sent hinv hd
    exact ⟨client, hclient, hkey, htransfer⟩
  · obtain ⟨client, call, answer, key, -, -, htransfer, -, -, -, -, hkey, hchain⟩ :=
      transferOf_sent hinv hd
    obtain ⟨e, he, hid, hloaded⟩ := (hlookup d.keyID key).mp hkey
    refine ⟨e, he, hid, ?_, key.limit, hloaded.limit, ?_⟩
    · rw [← hloaded.chain, hchain, htransfer.chain]
    · exact (broadcast_le_spent hinv d.keyID).trans
        ((Signer.inv_of_reaches hinv.signer).within d.keyID key hkey)

end Broadcast

/-! ### A sample run -/

/-- An adapter for the key of the sample host. -/
def sampleSender : Adapter where
  keyID := "ops"
  chainID := 1
  «from» := Address.ofBytes (List.replicate 32 0x11)
  token := 5
  gasLimitCap := 90000
  maxFeePerGasCapWei := 50
  keyID_ne := by decide
  from_ne := by decide
  token_ne := by decide
  gasLimitCap_ne := by decide
  feeCap_pos := by decide

/-- A transfer of 60 of the 99 that the key may spend. -/
def samplePayment : PaymentIntent := ⟨"ops", "USDC", "0x00000000000000000000000000000000000000aa", some 60⟩

/-- The transaction for it, as the signer is asked for it. -/
def sampleTransfer : Signer.DynamicFeeTx :=
  Signer.SignRequest.tx (SignerRequest.domain
    (signerRequest sampleSender (transferCalldata 0xaa 60) ⟨50000, 21, 1⟩ 7))

/-- An encoding of that transaction. -/
def sampleWire : Signer.Ethereum where
  marshalBinary tx := if tx = ⟨sampleTransfer, []⟩ then .ok [0] else .error "rlp"
  unmarshalBinary raw := if raw = [0] then .ok ⟨sampleTransfer, []⟩ else .error "rlp"
  hash _ := 0
  unmarshal_marshal tx raw h := by
    split at h
    · next htx => rw [← Except.ok.inj h, htx]; rfl
    · cases h

/-- A node with a base fee of 10. -/
def sampleReplies : (rpc : Rpc) → RpcReply rpc
  | .chainID => .ok (some 1)
  | .pendingNonceAt _ => .ok 7
  | .headerByNumber => .ok (some 10)
  | .suggestGasTipCap => .ok 1
  | .estimateGas _ => .ok 40000
  | .sendTransaction _ => .ok ()
  | .sign _ => .error "no signer"

/-- The submission is priced, signed and sent; a second one goes over the limit. -/
def sampleEvents : List Event :=
  [.submit 0 sampleSender (fun _ ↦ 0) samplePayment] ++ List.replicate 4 (.answer 0 sampleReplies) ++
    [.request 0, .serve (.validate 0), .serve (.lock 0), .serve (.check 0), .serve (.sign 0 (.ok [])),
      .reply 0, .answer 0 sampleReplies] ++
    [.submit 1 sampleSender (fun _ ↦ 0) samplePayment] ++ List.replicate 4 (.answer 1 sampleReplies) ++
    [.request 1, .serve (.validate 1), .serve (.lock 1), .serve (.check 1), .reply 1]

/-- One of the two is sent. -/
theorem broadcasts_within_limits_sample : ∃ kr net,
    Signer.loadKeyring (Signer.sampleHost '1') "keys.json" = .ok kr ∧
    Network.initial.run sampleWire id kr sampleEvents = some net ∧
    net.sent.map (fun d ↦ (d.client, d.tx.inner.nonce)) = [(0, 7)] ∧ net.broadcast "ops" = 60 ∧
    ∀ d ∈ net.sent, ∃ client, net.clients d.client = some client ∧
      TransferOf client.adapter client.intent d.tx.inner := by
  have hrun : ((Signer.loadKeyring (Signer.sampleHost '1') "keys.json").toOption.bind fun kr ↦
      (Network.initial.run sampleWire id kr sampleEvents).map fun net ↦
        (net.sent.map (fun d ↦ (d.client, d.tx.inner.nonce)), net.broadcast "ops")) =
      some ([(0, 7)], 60) := by decide +kernel
  obtain ⟨kr, hkr, hrun⟩ := Option.bind_eq_some_iff.mp hrun
  obtain ⟨net, hnet, hfacts⟩ := Option.map_eq_some_iff.mp hrun
  obtain ⟨hsent, htotal⟩ := Prod.mk.inj hfacts
  have hload : Signer.loadKeyring (Signer.sampleHost '1') "keys.json" = .ok kr := by
    cases hresult : Signer.loadKeyring (Signer.sampleHost '1') "keys.json" with
    | error err =>
      rw [hresult] at hkr
      cases hkr
    | ok other =>
      rw [hresult] at hkr
      rw [Option.some.inj hkr]
  obtain ⟨htransfers, -⟩ := broadcasts_within_limits hload (reached_of_run .initial hnet)
  refine ⟨kr, net, hload, hnet, hsent, htotal, fun d hd ↦ ?_⟩
  obtain ⟨client, hclient, -, htransfer⟩ := htransfers d hd
  exact ⟨client, hclient, htransfer⟩

end PaymentRail.Evm
