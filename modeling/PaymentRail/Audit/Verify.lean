import PaymentRail.Audit.Append
import PaymentRail.Codec.HashChain

/-!
# Verifying the audit log

`internal/audit/verify.go`.  `Verify` accepts exactly the rows that form a chain from the genesis
hash in which every row has the hash of its own fields, ending in the expected head if there is one.

The bytes that are hashed tell the fields: every field of variable length has its length in front,
and the hash of the predecessor has 32 bytes.  So a head hash commits to the whole log.
-/

namespace PaymentRail.Audit

open HashChain

inductive TamperKind where
  | gap
  | brokenLink
  | hashMismatch
  | headMismatch
  deriving DecidableEq

structure TamperError where
  seq : Int64
  kind : TamperKind
  deriving DecidableEq

structure Result where
  count : Int64
  headSeq : Int64
  headHash : List UInt8
  ok : Bool
  deriving DecidableEq

end PaymentRail.Audit

namespace PaymentRail.AuditRow

open Audit

/-- `OccurredAt.UTC().UnixMicro()`. -/
def unixMicro (row : AuditRow) : Int64 := Int64.ofInt row.occurredAt

/-- The canonical form of the fields of a row. -/
def canonicalBytes (row : AuditRow) : List UInt8 :=
  canonical row.seq row.actor row.action row.aggregateType row.aggregateID row.unixMicro row.payload

/-- The bytes whose hash a row has to carry. -/
def preimage (row : AuditRow) : List UInt8 := row.prevHash ++ row.canonicalBytes

/-- The row carries the hash of its fields. -/
def Hashed (rt : Runtime) (row : AuditRow) : Prop :=
  row.entryHash = Audit.entryHash rt row.prevHash row.canonicalBytes

instance (rt : Runtime) (row : AuditRow) : Decidable (row.Hashed rt) :=
  inferInstanceAs (Decidable (_ = _))

end PaymentRail.AuditRow

namespace PaymentRail.Audit

open HashChain

/-- The checks of a row against the row before it, which the first row has not. -/
def linkError : Option AuditRow → AuditRow → Option TamperError
  | none, _ => none
  | some prev, row =>
    if row.seq ≠ prev.seq + 1 then some ⟨row.seq, .gap⟩
    else if row.prevHash ≠ prev.entryHash then some ⟨row.seq, .brokenLink⟩
    else none

/-- The loop of `Verify`, with the row before. -/
def walk (rt : Runtime) : Option AuditRow → List AuditRow → Option TamperError
  | _, [] => none
  | prev, row :: rest =>
    match linkError prev row with
    | some err => some err
    | none => if ¬row.Hashed rt then some ⟨row.seq, .hashMismatch⟩ else walk rt (some row) rest

/-- `Verify`, with the hash given to `WithExpectedHead` if there is one. -/
def verify (rt : Runtime) (rows : List AuditRow) (expectHead : Option (List UInt8)) :
    Result × Option TamperError :=
  match rows with
  | [] =>
    if ∃ hash ∈ expectHead, 0 < hash.length then (⟨0, 0, [], false⟩, some ⟨0, .headMismatch⟩)
    else (⟨0, 0, [], true⟩, none)
  | first :: rest =>
    if first.seq ≠ 1 ∨ first.prevHash ≠ genesisPrevHash then
      (⟨0, 0, [], false⟩, some ⟨first.seq, .brokenLink⟩)
    else
      match walk rt none (first :: rest) with
      | some err => (⟨0, 0, [], false⟩, some err)
      | none =>
        let last := (first :: rest).getLast (List.cons_ne_nil first rest)
        if ∃ hash ∈ expectHead, hash ≠ last.entryHash then
          (⟨Int64.ofNat (rest.length + 1), last.seq, last.entryHash, false⟩,
            some ⟨last.seq, .headMismatch⟩)
        else (⟨Int64.ofNat (rest.length + 1), last.seq, last.entryHash, true⟩, none)

/-- The sequence number at a place of the log. -/
def seqAt (n : ℕ) : Int64 := Int64.ofNat (n + 1)

/-- Rows that are chained from the genesis hash. -/
abbrev Chained : List AuditRow → Prop :=
  Chain AuditRow.seq AuditRow.prevHash AuditRow.entryHash seqAt genesisPrevHash

/-- The hash of the last row. -/
abbrev headHash : List AuditRow → List UInt8 := head AuditRow.entryHash genesisPrevHash

theorem seqAt_succ (n : ℕ) : seqAt n + 1 = seqAt (n + 1) := by
  rw [seqAt, seqAt, Int64.ofNat_add (n + 1) 1]
  rfl

theorem toInt_seqAt {n : ℕ} (h : n + 1 < 2 ^ 63) : (seqAt n).toInt = n + 1 := by
  rw [seqAt, Int64.toInt_ofNat_of_lt h]
  rfl

section Walk

variable {rt : Runtime} {front rest : List AuditRow} {last row : AuditRow}

theorem linkError_eq_none_iff (h : Chained (front ++ [last])) :
    linkError (some last) row = none ↔ Chained (front ++ [last] ++ [row]) := by
  have hseq : last.seq + 1 = seqAt (front ++ [last]).length := by
    rw [(chain_concat_iff.mp h).2.1, seqAt_succ, List.length_append, List.length_singleton]
  rw [Chained, chain_concat_iff, and_iff_right h, head_concat, ← hseq, linkError]
  by_cases hnext : row.seq = last.seq + 1 <;> by_cases hlink : row.prevHash = last.entryHash <;>
    simp [hnext, hlink]

theorem walk_eq_none_iff (h : Chained (front ++ [last])) :
    walk rt (some last) rest = none ↔
      Chained (front ++ [last] ++ rest) ∧ ∀ row ∈ rest, row.Hashed rt := by
  induction rest generalizing front last with
  | nil => simp [walk, h]
  | cons row rest ih =>
    rw [List.append_cons, List.forall_mem_cons, walk]
    cases hlink : linkError (some last) row with
    | some err =>
      have hbroken : ¬Chained (front ++ [last] ++ [row]) := fun hchain ↦ by
        rw [(linkError_eq_none_iff h).mpr hchain] at hlink
        cases hlink
      simp only [reduceCtorEq, false_iff]
      exact fun hall ↦ hbroken hall.1.of_append
    | none =>
      have hchain := (linkError_eq_none_iff h).mp hlink
      by_cases hhashed : row.Hashed rt
      · simp only [hhashed, not_true_eq_false, if_false, true_and, ih hchain]
      · simp [hhashed]

end Walk

/-- What `Verify` accepts. -/
theorem verify_eq_none_iff (rt : Runtime) (rows : List AuditRow) (expectHead : Option (List UInt8)) :
    (verify rt rows expectHead).2 = none ↔ Chained rows ∧ (∀ row ∈ rows, row.Hashed rt) ∧
      ∀ hash ∈ expectHead, if rows = [] then hash = [] else hash = headHash rows := by
  cases rows with
  | nil =>
    have hnil : Chained [] := .nil
    by_cases hexpect : ∃ hash ∈ expectHead, 0 < hash.length
    · obtain ⟨hash, hmem, hpos⟩ := hexpect
      have hne : hash ≠ [] := List.ne_nil_of_length_pos hpos
      simp only [verify, if_pos (⟨hash, hmem, hpos⟩ : ∃ hash ∈ expectHead, 0 < hash.length)]
      simpa using fun _ ↦ ⟨hash, hmem, hne⟩
    · have hall : ∀ hash ∈ expectHead, hash = [] := fun hash hmem ↦ by
        by_contra hne
        exact hexpect ⟨hash, hmem, List.length_pos_iff.mpr hne⟩
      simp only [verify, if_neg hexpect]
      simpa [hnil] using hall
  | cons first rest =>
    have hchain : Chained [first] ↔ first.seq = 1 ∧ first.prevHash = genesisPrevHash := by
      have hconcat : Chained ([] ++ [first]) ↔ _ := chain_concat_iff
      rw [List.nil_append] at hconcat
      rw [hconcat, and_iff_right Chain.nil]
      rfl
    have hlast : ((first :: rest).getLast (List.cons_ne_nil first rest)).entryHash =
        headHash (first :: rest) := by
      rw [headHash, head, List.getLast?_eq_some_getLast (List.cons_ne_nil first rest)]
      rfl
    by_cases hgenesis : first.seq ≠ 1 ∨ first.prevHash ≠ genesisPrevHash
    · have hbroken : ¬Chained ([first] ++ rest) := fun h ↦ by
        have hfirst := hchain.mp h.of_append
        rcases hgenesis with hseq | hprev
        · exact hseq hfirst.1
        · exact hprev hfirst.2
      rw [List.singleton_append] at hbroken
      simp [verify, hgenesis, hbroken]
    · have hfirst : Chained ([] ++ [first]) := hchain.mpr (by simpa using hgenesis)
      have hwalk : walk rt none (first :: rest) = none ↔
          Chained (first :: rest) ∧ ∀ row ∈ first :: rest, row.Hashed rt := by
        rw [List.forall_mem_cons, walk, linkError]
        by_cases hhashed : first.Hashed rt
        · simpa [hhashed] using walk_eq_none_iff hfirst
        · simp [hhashed]
      rw [verify, if_neg hgenesis, ← and_assoc, ← hwalk]
      cases walk rt none (first :: rest) with
      | some err => simp
      | none =>
        simp only [hlast, List.cons_ne_nil, if_false, true_and]
        by_cases hexpect : ∃ hash ∈ expectHead, hash ≠ headHash (first :: rest)
        · rw [if_pos hexpect]
          simpa using hexpect
        · rw [if_neg hexpect]
          simpa using hexpect

/-! ### The canonical form -/

section Encoding

@[simp]
theorem length_bigEndian (v : UInt64) : (bigEndian v).length = 8 := rfl

theorem bigEndian_injective : Function.Injective bigEndian := by
  intro v w h
  simp only [bigEndian, List.map_cons, List.map_nil, List.cons.injEq, and_true] at h
  obtain ⟨h7, h6, h5, h4, h3, h2, h1, h0⟩ := h
  have hv := v.toNat_lt
  have hw := w.toNat_lt
  simp only [← UInt8.toNat_inj, UInt64.toNat_toUInt8, UInt64.toNat_shiftRight,
    Nat.shiftRight_eq_div_pow] at h7 h6 h5 h4 h3 h2 h1 h0
  simp at h7 h6 h5 h4 h3 h2 h1 h0
  apply UInt64.toNat_inj.mp
  omega

theorem bigEndian_append_inj {v w : UInt64} {rest rest' : List UInt8}
    (h : bigEndian v ++ rest = bigEndian w ++ rest') : v = w ∧ rest = rest' := by
  obtain ⟨hvalue, hrest⟩ := List.append_inj h (by simp)
  exact ⟨bigEndian_injective hvalue, hrest⟩

/-- A field can be read off the front of what follows: its length comes first. -/
theorem field_append_inj {bytes bytes' rest rest' : List UInt8} (hlength : bytes.length < 2 ^ 63)
    (hlength' : bytes'.length < 2 ^ 63) (h : field bytes ++ rest = field bytes' ++ rest') :
    bytes = bytes' ∧ rest = rest' := by
  rw [field, field, List.append_assoc, List.append_assoc] at h
  obtain ⟨hsize, hbytes⟩ := bigEndian_append_inj h
  refine List.append_inj hbytes ?_
  have hnat := congrArg UInt64.toNat hsize
  simp only [Nat.toUInt64, UInt64.toNat_ofNat'] at hnat
  omega

theorem toUInt64_injective : Function.Injective Int64.toUInt64 := fun a b h ↦ by
  simpa using congrArg UInt64.toInt64 h

theorem utf8_injective {a b : String} (h : a.toUTF8.data.toList = b.toUTF8.data.toList) : a = b :=
  String.toByteArray_inj.mp (ByteArray.ext (Array.toList_inj.mp h))

end Encoding

/-- Two rows that agree on every column; the event time is compared in microseconds. -/
structure SameRow (a b : AuditRow) : Prop where
  seq : a.seq = b.seq
  prevHash : a.prevHash = b.prevHash
  entryHash : a.entryHash = b.entryHash
  actor : a.actor = b.actor
  action : a.action = b.action
  aggregateType : a.aggregateType = b.aggregateType
  aggregateID : a.aggregateID = b.aggregateID
  payload : a.payload = b.payload
  unixMicro : a.unixMicro = b.unixMicro

/-- The columns of variable length that are hashed. -/
def variableFields (row : AuditRow) : List (List UInt8) :=
  [row.actor.toUTF8.data.toList, row.action.toUTF8.data.toList,
    row.aggregateType.toUTF8.data.toList, row.aggregateID.toUTF8.data.toList, row.payload]

/-- A value of type `[]db.AuditLog`: the length of a slice or a string is an `int`. -/
structure Rows where
  list : List AuditRow
  length_lt : list.length < 2 ^ 63
  sized : ∀ row ∈ list, ∀ bytes ∈ variableFields row, bytes.length < 2 ^ 63

/-- The canonical form tells the fields it was made from. -/
theorem sameRow_of_preimage {a b : AuditRow}
    (ha : ∀ bytes ∈ variableFields a, bytes.length < 2 ^ 63)
    (hb : ∀ bytes ∈ variableFields b, bytes.length < 2 ^ 63)
    (hprev : a.prevHash.length = b.prevHash.length) (hhash : a.entryHash = b.entryHash)
    (h : a.preimage = b.preimage) : SameRow a b := by
  obtain ⟨hprevHash, hbytes⟩ := List.append_inj h hprev
  simp only [variableFields, List.forall_mem_cons] at ha hb
  obtain ⟨hactorA, hactionA, htypeA, hidA, hpayloadA, -⟩ := ha
  obtain ⟨hactorB, hactionB, htypeB, hidB, hpayloadB, -⟩ := hb
  simp only [AuditRow.canonicalBytes, canonical, List.append_assoc] at hbytes
  obtain ⟨hseq, hbytes⟩ := bigEndian_append_inj hbytes
  obtain ⟨htime, hbytes⟩ := bigEndian_append_inj hbytes
  obtain ⟨hactor, hbytes⟩ := field_append_inj hactorA hactorB hbytes
  obtain ⟨haction, hbytes⟩ := field_append_inj hactionA hactionB hbytes
  obtain ⟨htype, hbytes⟩ := field_append_inj htypeA htypeB hbytes
  obtain ⟨hid, hbytes⟩ := field_append_inj hidA hidB hbytes
  have hlast : field a.payload ++ [] = field b.payload ++ [] := by simpa using hbytes
  obtain ⟨hpayload, -⟩ := field_append_inj hpayloadA hpayloadB hlast
  exact {
    seq := toUInt64_injective hseq
    prevHash := hprevHash
    entryHash := hhash
    actor := utf8_injective hactor
    action := utf8_injective haction
    aggregateType := utf8_injective htype
    aggregateID := utf8_injective hid
    payload := hpayload
    unixMicro := toUInt64_injective htime }

theorem injOn_seqAt : Set.InjOn seqAt {n | n < 2 ^ 63} := by
  intro n hn m hm h
  have hint := congrArg Int64.toInt h
  have hn' : n < 2 ^ 63 := hn
  have hm' : m < 2 ^ 63 := hm
  have hsize : (Int64.size : ℤ) = 2 ^ 64 := rfl
  simp only [seqAt, Int64.toInt_ofNat', Int.bmod_def, hsize] at hint
  split at hint <;> split at hint <;> omega

/-- A recorded head hash pins the whole log: two lists of rows that verify against it agree on every
row. -/
theorem verify_commits (rt : Runtime) (hsize : ∀ input, (rt.sha256 input).length = 32) (A B : Rows)
    (hinj : Set.InjOn rt.sha256 {input | ∃ row ∈ A.list ++ B.list, row.preimage = input})
    {H : List UInt8} (hH : H ≠ []) (hA : (verify rt A.list (some H)).2 = none)
    (hB : (verify rt B.list (some H)).2 = none) : List.Forall₂ SameRow A.list B.list := by
  obtain ⟨hchainA, hhashedA, hheadA⟩ := (verify_eq_none_iff _ _ _).mp hA
  obtain ⟨hchainB, hhashedB, hheadB⟩ := (verify_eq_none_iff _ _ _).mp hB
  have hhead : ∀ {rows : List AuditRow}, (∀ hash ∈ some H, if rows = [] then hash = []
      else hash = headHash rows) → rows ≠ [] ∧ H = headHash rows := by
    intro rows hrows
    have hH' := hrows H rfl
    by_cases hempty : rows = []
    · rw [if_pos hempty] at hH'
      exact absurd hH' hH
    · rw [if_neg hempty] at hH'
      exact ⟨hempty, hH'⟩
  obtain ⟨hneA, hHA⟩ := hhead hheadA
  obtain ⟨hneB, hHB⟩ := hhead hheadB
  -- every hash that a row points to has 32 bytes
  have hprev : ∀ {rows : List AuditRow}, Chained rows → (∀ row ∈ rows, row.Hashed rt) →
      ∀ row ∈ rows, row.prevHash.length = 32 := by
    intro rows hchain hhashed
    refine hchain.prev_of (p := fun hash ↦ hash.length = 32) (by simp [genesisPrevHash]) ?_
    intro row hrow
    rw [hhashed row hrow]
    exact hsize _
  have hsame : ∀ a ∈ A.list, ∀ b ∈ B.list, a.entryHash = b.entryHash → SameRow a b := by
    intro a ha b hb hhash
    refine sameRow_of_preimage (A.sized a ha) (B.sized b hb) ?_ hhash ?_
    · rw [hprev hchainA hhashedA a ha, hprev hchainB hhashedB b hb]
    · refine hinj ⟨a, by simp [ha], rfl⟩ ⟨b, by simp [hb], rfl⟩ ?_
      have hhashA : a.entryHash = rt.sha256 a.preimage := hhashedA a ha
      have hhashB : b.entryHash = rt.sha256 b.preimage := hhashedB b hb
      rw [← hhashA, ← hhashB, hhash]
  exact hchainA.commit hchainB injOn_seqAt A.length_lt.le B.length_lt.le hsame
    (fun a _ b _ h ↦ ⟨h.seq, h.prevHash⟩) hneA hneB (hHA.symm.trans hHB)

/-- A log of two rows under a stand-in for the hash: 32 times the last byte. -/
def sampleRows : Rows where
  list := [⟨1, genesisPrevHash, List.replicate 32 7, "system:api", "payment.created", "payment", "p",
      5, [7]⟩,
    ⟨2, List.replicate 32 7, List.replicate 32 8, "system:api", "payment.canceled", "payment", "p", 6,
      [8]⟩]
  length_lt := by decide
  sized := by decide +kernel

theorem verify_commits_sample :
    (verify ⟨fun input ↦ List.replicate 32 (input.getLast?.getD 0), fun _ ↦ []⟩ sampleRows.list
      (some (List.replicate 32 8))).2 = none ∧
    List.Forall₂ SameRow sampleRows.list sampleRows.list := by
  have haccepted : (verify ⟨fun input ↦ List.replicate 32 (input.getLast?.getD 0), fun _ ↦ []⟩
      sampleRows.list (some (List.replicate 32 8))).2 = none := by decide +kernel
  have hdistinct : ∀ a ∈ sampleRows.list ++ sampleRows.list,
      ∀ b ∈ sampleRows.list ++ sampleRows.list,
        a.preimage.getLast?.getD 0 = b.preimage.getLast?.getD 0 → a.preimage = b.preimage := by
    decide +kernel
  refine ⟨haccepted, verify_commits _ (by simp) sampleRows sampleRows ?_ (by decide) haccepted
    haccepted⟩
  rintro _ ⟨a, ha, rfl⟩ _ ⟨b, hb, rfl⟩ h
  exact hdistinct a ha b hb (List.replicate_right_injective (by decide : 32 ≠ 0) h)

end PaymentRail.Audit
