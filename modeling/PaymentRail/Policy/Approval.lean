import PaymentRail.Codec.Address
import PaymentRail.Policy.Velocity
import PaymentRail.Table.Keyed

/-!
# Screening and four-eyes approval

The two decisions on a payment that need no store (`internal/policy/policy.go`,
`internal/policy/approval.go`): whether its destination is on the denylist, and whether it needs a
second operator and who that may be.  The manifest of the denylist is read and decoded by library
functions, kept as a parameter.
-/

namespace PaymentRail.Policy

open Transaction Ledger

def errDenied : Err := ⟨"policy: destination denied", some .errDenied⟩

def errSelfApproval : Err := ⟨"policy: approver must differ from proposer", some .errSelfApproval⟩

def errUnknownApprover : Err := ⟨"policy: approver not in allowlist", some .errUnknownApprover⟩

/-! ### The denylist -/

structure DenylistEntry where
  address : String
  reason : String
  deriving DecidableEq

/-- The denied addresses with their reasons. -/
structure Denylist where
  denied : List (Address × String)
  deriving DecidableEq

/-- A manifest file as `os.ReadFile` and `json.Unmarshal` deliver it, or the text of their error. -/
abbrev Manifests := String → Except String (List DenylistEntry)

/-- Add the entries of a manifest; a later entry replaces the reason of an earlier one. -/
def Denylist.fill (path : String) : List DenylistEntry → Denylist → Except Err Denylist
  | [], denylist => .ok denylist
  | e :: rest, denylist =>
    if ¬isHexAddress e.address then
      .error (.plain ("policy: load denylist " ++ quote path ++ ": invalid address " ++ quote e.address))
    else fill path rest ⟨Table.setAt denylist.denied (Address.ofHex e.address) e.reason⟩

/-- `Load`; the empty path disables screening. -/
def Denylist.load (manifests : Manifests) (path : String) : Except Err Denylist :=
  if path = "" then .ok ⟨[]⟩
  else
    match manifests path with
    | .error text => .error (.plain ("policy: load denylist " ++ quote path ++ ": " ++ text))
    | .ok entries => fill path entries ⟨[]⟩

def Denylist.screen (denylist : Denylist) (address : String) : Except Err Unit :=
  match Table.valueAt denylist.denied (Address.ofHex address) with
  | some reason => .error (errDenied.wrap ("address on denylist (" ++ reason ++ ")"))
  | none => .ok ()

namespace Denylist

/-- A manifest that is accepted has only addresses, and denies each of them. -/
theorem denies_of_fill {path : String} {entries : List DenylistEntry} {denylist filled : Denylist}
    (h : fill path entries denylist = .ok filled) :
    (∀ e ∈ entries, isHexAddress e.address ∧
      (Table.valueAt filled.denied (Address.ofHex e.address)).isSome) ∧
    ∀ address, (Table.valueAt denylist.denied address).isSome →
      (Table.valueAt filled.denied address).isSome := by
  induction entries generalizing denylist with
  | nil =>
    cases h
    exact ⟨List.forall_mem_nil _, fun _ hdenied ↦ hdenied⟩
  | cons e rest ih =>
    unfold fill at h
    split at h
    · cases h
    · next haddress =>
      obtain ⟨hrest, hkept⟩ := ih h
      refine ⟨List.forall_mem_cons.mpr ⟨⟨not_not.mp haddress, hkept _ ?_⟩, hrest⟩, fun address hdenied ↦ ?_⟩
      · rw [Table.valueAt_setAt_self]
        rfl
      · apply hkept
        by_cases hsame : address = Address.ofHex e.address
        · rw [hsame, Table.valueAt_setAt_self]
          rfl
        · rw [Table.valueAt_setAt_of_ne e.reason hsame]
          exact hdenied

/-- A destination that passes is none of the addresses of the manifest, however they are spelt. -/
theorem ofHex_ne_of_screen {manifests : Manifests} {path address : String} {denylist : Denylist}
    (hload : load manifests path = .ok denylist) (hscreen : denylist.screen address = .ok ())
    (hpath : path ≠ "") : ∃ entries, manifests path = .ok entries ∧ ∀ e ∈ entries,
      isHexAddress e.address ∧ Address.ofHex e.address ≠ Address.ofHex address := by
  unfold load at hload
  rw [if_neg hpath] at hload
  split at hload
  · cases hload
  · next entries hentries =>
    refine ⟨entries, hentries, fun e he ↦ ?_⟩
    obtain ⟨haddress, hdenied⟩ := (denies_of_fill hload).1 e he
    refine ⟨haddress, fun hsame ↦ ?_⟩
    obtain ⟨reason, hreason⟩ := Option.isSome_iff_exists.mp hdenied
    rw [hsame] at hreason
    simp only [screen, hreason] at hscreen
    cases hscreen

end Denylist

/-! ### The approval gate -/

/-- The payment that an approval replays; `paymentID` is empty if there is none. -/
structure Intent where
  «to» : String
  asset : String
  keyID : String
  paymentID : String
  amount : ℤ
  deriving DecidableEq

structure PendingApproval where
  id : String
  proposer : String
  status : String
  intent : Intent
  deriving DecidableEq

structure ApprovalGate where
  threshold : Option ℤ
  approvers : List String
  deriving DecidableEq

namespace ApprovalGate

variable (gate : ApprovalGate)

def enabled : Bool := gate.threshold.any (0 < ·)

/-- The threshold itself is gated. -/
def required (amount : Option ℤ) : Bool :=
  gate.enabled && amount.any fun amount ↦ gate.threshold.any (· ≤ amount)

def knownApprover (id : String) : Bool := id ∈ gate.approvers

def authorize (proposer approver : String) : Except Err Unit :=
  if ¬gate.knownApprover approver then .error errUnknownApprover
  else if approver = proposer then .error errSelfApproval
  else .ok ()

variable {gate}

theorem authorize_eq_ok {proposer approver : String} :
    gate.authorize proposer approver = .ok () ↔
      gate.knownApprover approver = true ∧ approver ≠ proposer := by
  unfold authorize
  by_cases hknown : gate.knownApprover approver = true
  · rw [if_neg (not_not.mpr hknown)]
    split <;> simp_all
  · simp [hknown]

end ApprovalGate

end PaymentRail.Policy
