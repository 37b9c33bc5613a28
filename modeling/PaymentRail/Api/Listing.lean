import PaymentRail.Api.Server
import PaymentRail.Codec.Base64
import PaymentRail.Codec.Timestamp
import PaymentRail.Table.Paging
import Mathlib.Data.Prod.Lex
import Mathlib.Order.OrderDual

/-!
# Listing payments

The route `GET /v1/payments`: `Service.List` over the two keyset queries, the tokens that carry its
cursor to the client and back, and the handler.  A client follows the tokens from page to page while
payments are created and canceled.

A token is the position of the last payment of a page as text, in base64.  The time in it is written
in the zone of the database session.
-/

namespace PaymentRail.Payments

open Table

/-- The position of a payment in `ORDER BY created_at DESC, id DESC`. -/
def position (createdAt : Time) (id : UUID) : (Time ×ₗ ℕ)ᵒᵈ :=
  OrderDual.toDual (toLex (createdAt, id.toNat))

def place (payment : Payment) : (Time ×ₗ ℕ)ᵒᵈ := position payment.createdAt payment.id

theorem position_injective {createdAt createdAt' : Time} {id id' : UUID}
    (h : position createdAt id = position createdAt' id') : createdAt = createdAt' ∧ id = id' := by
  have hpair := Prod.mk.inj (toLex.injective (OrderDual.toDual.injective h))
  exact ⟨hpair.1, BitVec.eq_of_toNat_eq hpair.2⟩

/-- A time as a `timestamptz`, to the nearest microsecond. -/
def timestamptz (time : Time) : Time := (time + 500) / 1000 * 1000

/-- Where a page begins: behind a payment. -/
structure Cursor where
  createdAt : Time
  id : UUID
  deriving DecidableEq

def Cursor.position (cursor : Cursor) : (Time ×ₗ ℕ)ᵒᵈ := Payments.position cursor.createdAt cursor.id

/-- The queries of `List`. -/
structure ListQuerier where
  listPaymentsFirstPage : (limit : ℕ) → Except Err (List Payment)
  listPaymentsAfter :
    (afterCreatedAt : Time) → (afterID : UUID) → (pageLimit : ℕ) → Except Err (List Payment)

/-- The queries on the table of payments. -/
def ListQuerier.ofTable (payments : List Payment) : ListQuerier where
  listPaymentsFirstPage limit := .ok ((after place payments none).take limit)
  listPaymentsAfter afterCreatedAt afterID pageLimit :=
    .ok ((after place payments (some (position (timestamptz afterCreatedAt) afterID))).take pageLimit)

/-- `Service.List`.  Taking the last row of an empty page would panic; a page has a positive limit. -/
def list (q : ListQuerier) (limit : ℕ) (after : Option Cursor) :
    Except Err (List Payment × Option Cursor) :=
  let fetched := match after with
    | none => q.listPaymentsFirstPage (limit + 1)
    | some cursor => q.listPaymentsAfter cursor.createdAt cursor.id (limit + 1)
  match fetched with
  | .error err => .error (err.wrap "payments: list")
  | .ok rows =>
    if rows.length ≤ limit then .ok (rows, none)
    else .ok (rows.take limit, (rows.take limit).getLast?.map fun last ↦ ⟨last.createdAt, last.id⟩)

/-- On a table, `List` is the page behind the cursor, with the cursor behind the page. -/
theorem list_ofTable (payments : List Payment) (limit : ℕ) {cursor : Option Cursor}
    (hcursor : ∀ c, cursor = some c → timestamptz c.createdAt = c.createdAt) :
    ∃ next, list (.ofTable payments) limit cursor =
        .ok (page place ⟨payments, limit⟩ (cursor.map Cursor.position), next) ∧
      next.map Cursor.position = nextCursor place ⟨payments, limit⟩ (cursor.map Cursor.position) ∧
      ∀ c, next = some c → ∃ payment ∈ payments, c = ⟨payment.createdAt, payment.id⟩ := by
  have hrows : list (.ofTable payments) limit cursor =
      (if ((after place payments (cursor.map Cursor.position)).take (limit + 1)).length ≤ limit then
        .ok ((after place payments (cursor.map Cursor.position)).take (limit + 1), none)
      else .ok (((after place payments (cursor.map Cursor.position)).take (limit + 1)).take limit,
        (((after place payments (cursor.map Cursor.position)).take (limit + 1)).take
          limit).getLast?.map fun last ↦ ⟨last.createdAt, last.id⟩)) := by
    cases cursor with
    | none => rfl
    | some c =>
      simp only [list, ListQuerier.ofTable, hcursor c rfl]
      rfl
  rw [hrows]
  generalize hall : after place payments (cursor.map Cursor.position) = rows
  have hmem : ∀ payment ∈ rows, payment ∈ payments := fun payment hpayment ↦
    (mem_after.mp (hall ▸ hpayment)).1
  unfold nextCursor page
  simp only [hall]
  by_cases hmore : limit < rows.length
  · have hlength : ¬(rows.take (limit + 1)).length ≤ limit := by
      rw [List.length_take]
      omega
    have htake : (rows.take (limit + 1)).take limit = rows.take limit := by
      rw [List.take_take, Nat.min_eq_left (Nat.le_succ limit)]
    rw [if_neg hlength, if_pos hmore, htake]
    refine ⟨_, rfl, ?_, fun c hc ↦ ?_⟩
    · rw [Option.map_map]
      rfl
    · obtain ⟨last, hlast, rfl⟩ := Option.map_eq_some_iff.mp hc
      exact ⟨last, hmem last (List.mem_of_mem_take (List.mem_of_getLast? hlast)), rfl⟩
  · have hlength : (rows.take (limit + 1)).length ≤ limit := by
      rw [List.length_take]
      omega
    have htake : rows.take (limit + 1) = rows.take limit := by
      rw [List.take_of_length_le (by omega), List.take_of_length_le (by omega)]
    rw [if_pos hlength, if_neg hmore, htake]
    exact ⟨none, rfl, rfl, fun c hc ↦ nomatch hc⟩

end PaymentRail.Payments

namespace PaymentRail.Api

open Table Payments

/-! ### Tokens -/

/-- The bytes of a text of one-byte characters, and the other way round. -/
def bytesOf (text : List Char) : List UInt8 := text.map fun c ↦ UInt8.ofNat c.toNat

def textOf (bytes : List UInt8) : List Char := bytes.map fun byte ↦ Char.ofNat byte.toNat

def encodeCursor (location : Time → Timestamp.Zone) (c : Cursor) : String :=
  String.ofList (Base64.encode (bytesOf
    (Timestamp.format (location c.createdAt) c.createdAt ++ '|' :: c.id.chars)))

/-- The parts of a text before and after its first bar. -/
def cutBar (text : List Char) : Option (List Char × List Char) :=
  match text.dropWhile (· ≠ '|') with
  | [] => none
  | _ :: rest => some (text.takeWhile (· ≠ '|'), rest)

/-- `decodeCursor`; all its errors get the same response. -/
def decodeCursor (token : String) : Option Cursor := do
  let raw ← Base64.decode token.toList
  let (text, id) ← cutBar (textOf raw)
  let createdAt ← Timestamp.parse text
  let id ← (UUID.parse (String.ofList id)).toOption
  return ⟨createdAt, id⟩

/-- A time that a token can carry: to the microsecond, in a year of four digits. -/
structure Representable (location : Time → Timestamp.Zone) (time : Time) : Prop where
  micro : time % 1000 = 0
  year_nonneg : 0 ≤ ((location time).date time).year
  year_le : ((location time).date time).year ≤ 9999

theorem Representable.timestamptz_eq {location : Time → Timestamp.Zone} {time : Time}
    (h : Representable location time) : timestamptz time = time := by
  have hround : ∀ n : ℤ, n % 1000 = 0 → (n + 500) / 1000 * 1000 = n := by omega
  exact hround time h.micro

theorem textOf_bytesOf {text : List Char} (h : ∀ c ∈ text, c.toNat < 128) :
    textOf (bytesOf text) = text := by
  rw [textOf, bytesOf, List.map_map]
  refine (List.map_congr_left fun c hc ↦ ?_).trans (List.map_id text)
  have hlt := h c hc
  have hbyte : (UInt8.ofNat c.toNat).toNat = c.toNat := UInt8.toNat_ofNat_of_lt' (hlt.trans (by decide))
  rw [Function.comp_apply, hbyte]
  exact Char.ofNat_toNat c

theorem cutBar_append {first : List Char} (h : ∀ c ∈ first, c ≠ '|') (second : List Char) :
    cutBar (first ++ '|' :: second) = some (first, second) := by
  have hpos : ∀ c ∈ first, decide (c ≠ '|') = true := fun c hc ↦ decide_eq_true (h c hc)
  rw [cutBar, List.dropWhile_append_of_pos hpos, List.takeWhile_append_of_pos hpos,
    List.dropWhile_cons_of_neg (by decide), List.takeWhile_cons_of_neg (by decide), List.append_nil]

/-- A token gives the cursor back. -/
theorem decodeCursor_encodeCursor {location : Time → Timestamp.Zone} {c : Cursor}
    (h : Representable location c.createdAt) : decodeCursor (encodeCursor location c) = some c := by
  have htime : ∀ ch ∈ Timestamp.format (location c.createdAt) c.createdAt,
      ch.toNat < 128 ∧ ch ≠ '|' := by
    intro ch hch
    rcases Timestamp.mem_format hch with hdigit | hsign
    · unfold Decimal.isDigit Decimal.digitValue at hdigit
      split at hdigit
      · next hrange =>
        refine ⟨by omega, ?_⟩
        rintro rfl
        exact absurd hrange.2 (by decide)
      · cases hdigit
    · simp only [List.mem_cons, List.not_mem_nil, or_false] at hsign
      rcases hsign with rfl | rfl | rfl | rfl | rfl | rfl <;> decide
  have htext : ∀ ch ∈ Timestamp.format (location c.createdAt) c.createdAt ++ '|' :: c.id.chars,
      ch.toNat < 128 := by
    intro ch hch
    rcases List.mem_append.mp hch with hch | hch
    · exact (htime ch hch).1
    · rcases List.mem_cons.mp hch with rfl | hch
      · decide
      · exact UUID.toNat_lt_of_mem_chars hch
  rw [decodeCursor, encodeCursor, String.toList_ofList, Base64.decode_encode]
  simp only [bind, Option.bind_some]
  rw [textOf_bytesOf htext, cutBar_append fun ch hch ↦ (htime ch hch).2, Option.bind_some,
    Timestamp.parse_format h.year_nonneg h.year_le, Option.bind_some, ← UUID.string, UUID.parse_string]
  rfl

/-! ### The handler -/

def defaultListLimit : ℕ := 20

def maxListLimit : ℕ := 100

def clampLimit (n : ℤ) : ℕ :=
  if n < 1 then 1 else if n > maxListLimit then maxListLimit else n.toNat

structure ListResponse where
  data : List PaymentResponse
  nextCursor : String

/-- The page size that a request asks for. -/
def pageSize (limit : String) : Option ℕ :=
  if limit = "" then some defaultListLimit else (Decimal.atoi limit).map clampLimit

/-- `handleList`: the page with status 200, or the response of an error. -/
def handleList (rt : Runtime) (location : Time → Timestamp.Zone) (q : ListQuerier)
    (limit cursor : String) : Except Response ListResponse :=
  match pageSize limit with
  | none => .error (writeError rt 400 "invalid_request" "limit must be an integer")
  | some limit =>
    let decoded : Option (Option Cursor) :=
      if cursor = "" then some none else (decodeCursor cursor).map some
    match decoded with
    | none => .error (writeError rt 400 "invalid_request" "cursor is malformed")
    | some after =>
      match list q limit after with
      | .error err => .error (writeServiceError rt err)
      | .ok (page, next) =>
        .ok ⟨page.map toPaymentResponse, next.elim "" (encodeCursor location)⟩

/-! ### Following the tokens -/

/-- What a request of the client meets: the payments at its time and the limit it asks for. -/
structure ListRequest where
  payments : List Payment
  limit : String

def ListRequest.size (request : ListRequest) : ℕ := (pageSize request.limit).getD 0

def ListRequest.visit (request : ListRequest) : Visit Payment := ⟨request.payments, request.size⟩

section Walk

variable (rt : Runtime) (location : Time → Timestamp.Zone)

def ListRequest.serve (request : ListRequest) (token : String) : Except Response ListResponse :=
  handleList rt location (.ofTable request.payments) request.limit token

/-- The responses to requests that follow the tokens, up to the one without a token. -/
def follow : String → List ListRequest → Except Response (List ListResponse)
  | _, [] => .ok []
  | token, request :: rest => do
    let response ← request.serve rt location token
    if response.nextCursor = "" then return [response]
    else return response :: (← follow response.nextCursor rest)

/-- Some response has no token. -/
def Finished (responses : List ListResponse) : Prop :=
  ∃ response ∈ responses, response.nextCursor = ""

/-- Between two requests, no payment is inserted that is older than the cursor of the token. -/
def NoneOlder : String → List ListRequest → Prop
  | token, request :: next :: rest => ∀ response cursor,
      request.serve rt location token = .ok response →
      decodeCursor response.nextCursor = some cursor →
        (∀ payment ∈ next.payments, cursor.position < place payment →
          payment.id ∈ request.payments.map Payment.id) ∧
        NoneOlder response.nextCursor (next :: rest)
  | _, _ => True

/-- What becomes of the payments from one request to the next: some are canceled, some are new. -/
def Later (before after : List Payment) : Prop :=
  ∀ payment ∈ before, ∃ later ∈ after, payment.Evolves later

/-- Requests with limits that are integers, on tables with distinct ids, one after the other. -/
structure Admissible (requests : List ListRequest) : Prop where
  limits : ∀ request ∈ requests, (pageSize request.limit).isSome
  ids : ∀ request ∈ requests, (request.payments.map Payment.id).Nodup
  times : ∀ request ∈ requests, ∀ payment ∈ request.payments, Representable location payment.createdAt
  later : (requests.map ListRequest.payments).IsChain Later

end Walk

/-- The token of a cursor; there is none for the first page. -/
def tokenOf (location : Time → Timestamp.Zone) (cursor : Option Cursor) : String :=
  cursor.elim "" (encodeCursor location)

section Tokens

variable (rt : Runtime) {location : Time → Timestamp.Zone} {cursor : Option Cursor}

theorem encodeCursor_ne_empty {c : Cursor} (h : Representable location c.createdAt) :
    encodeCursor location c ≠ "" := by
  intro hempty
  have hdecode := decodeCursor_encodeCursor h
  rw [hempty] at hdecode
  cases hdecode

/-- The page behind a token, and the token behind the page. -/
theorem serve_tokenOf {request : ListRequest} (hlimit : (pageSize request.limit).isSome)
    (htimes : ∀ payment ∈ request.payments, Representable location payment.createdAt)
    (hcursor : ∀ c, cursor = some c → Representable location c.createdAt) :
    ∃ next, request.serve rt location (tokenOf location cursor) =
        .ok ⟨(page place request.visit (cursor.map Cursor.position)).map toPaymentResponse,
          tokenOf location next⟩ ∧
      next.map Cursor.position = nextCursor place request.visit (cursor.map Cursor.position) ∧
      ∀ c, next = some c → Representable location c.createdAt := by
  obtain ⟨limit, hlimit⟩ := Option.isSome_iff_exists.mp hlimit
  have hsize : request.visit = ⟨request.payments, limit⟩ := by
    rw [ListRequest.visit, ListRequest.size, hlimit]
    rfl
  obtain ⟨next, hlist, hnext, hpayment⟩ := list_ofTable request.payments limit
    fun c hc ↦ (hcursor c hc).timestamptz_eq
  refine ⟨next, ?_, by rw [hsize]; exact hnext, fun c hc ↦ ?_⟩
  · have hdecoded : (if tokenOf location cursor = "" then some none
        else (decodeCursor (tokenOf location cursor)).map some) = some cursor := by
      cases cursor with
      | none => rfl
      | some c =>
        rw [tokenOf, Option.elim_some, if_neg (encodeCursor_ne_empty (hcursor c rfl)),
          decodeCursor_encodeCursor (hcursor c rfl)]
        rfl
    simp only [ListRequest.serve, handleList, hlimit, hdecoded, hlist, hsize]
    rfl
  · obtain ⟨payment, hmem, rfl⟩ := hpayment c hc
    exact htimes payment hmem

/-- Following the tokens shows the pages. -/
theorem follow_tokenOf {requests : List ListRequest}
    (hlimits : ∀ request ∈ requests, (pageSize request.limit).isSome)
    (htimes : ∀ request ∈ requests, ∀ payment ∈ request.payments,
      Representable location payment.createdAt)
    (hcursor : ∀ c, cursor = some c → Representable location c.createdAt) :
    ∃ responses, follow rt location (tokenOf location cursor) requests = .ok responses ∧
      responses.map ListResponse.data = (pages place (cursor.map Cursor.position)
        (requests.map ListRequest.visit)).map (List.map toPaymentResponse) ∧
      (Finished responses ↔
        Ends place (cursor.map Cursor.position) (requests.map ListRequest.visit)) := by
  induction requests generalizing cursor with
  | nil => exact ⟨[], rfl, rfl, by simp [Finished, Ends]⟩
  | cons request rest ih =>
    obtain ⟨next, hserve, hnext, hrepresentable⟩ := serve_tokenOf rt
      (hlimits request (List.mem_cons_self ..)) (htimes request (List.mem_cons_self ..)) hcursor
    obtain ⟨responses, hfollow, hdata, hfinished⟩ := ih
      (fun other hother ↦ hlimits other (List.mem_cons_of_mem _ hother))
      (fun other hother ↦ htimes other (List.mem_cons_of_mem _ hother)) hrepresentable
    simp only [follow, hserve, List.map_cons, pages, Ends, ← hnext, bind, Except.bind]
    cases next with
    | none =>
      refine ⟨_, rfl, rfl, ?_⟩
      simp [Finished, tokenOf]
    | some c =>
      have hne : tokenOf location (some c) ≠ "" := encodeCursor_ne_empty (hrepresentable c rfl)
      rw [if_neg hne, hfollow]
      refine ⟨_, rfl, ?_, ?_⟩
      · simp [hdata]
      · simpa [Finished, hne] using hfinished

/-- The position of a payment does not change. -/
theorem place_eq_of_later {before after : List Payment} (hlater : Later before after)
    (hids : (after.map Payment.id).Nodup) {payment later : Payment} (hpayment : payment ∈ before)
    (hmem : later ∈ after) (hid : later.id = payment.id) : place later = place payment := by
  obtain ⟨evolved, hevolved, hevolves⟩ := hlater payment hpayment
  have hplace : place evolved = place payment ∧ evolved.id = payment.id := by
    rcases hevolves with rfl | ⟨reversal, rfl⟩ <;> exact ⟨rfl, rfl⟩
  have hsame : later = evolved :=
    List.inj_on_of_nodup_map hids hmem hevolved (hid.trans hplace.2.symm)
  rw [hsame, hplace.1]

/-- A payment whose id was there in the request before was there with its position. -/
theorem place_mem_of_later {before after : List Payment} (hlater : Later before after)
    (hids : (after.map Payment.id).Nodup) {payment : Payment} (hpayment : payment ∈ after)
    (hid : payment.id ∈ before.map Payment.id) : place payment ∈ before.map place := by
  obtain ⟨earlier, hearlier, hid⟩ := List.mem_map.mp hid
  rw [place_eq_of_later hlater hids hearlier hpayment hid.symm]
  exact List.mem_map_of_mem hearlier

theorem undisturbed_of_noneOlder {requests : List ListRequest} (h : Admissible location requests)
    (hcursor : ∀ c, cursor = some c → Representable location c.createdAt)
    (hnone : NoneOlder rt location (tokenOf location cursor) requests) :
    Undisturbed place (cursor.map Cursor.position) (requests.map ListRequest.visit) := by
  induction requests generalizing cursor with
  | nil => trivial
  | cons request rest ih =>
    cases rest with
    | nil => trivial
    | cons later rest =>
      obtain ⟨next, hserve, hnext, hrepresentable⟩ := serve_tokenOf rt
        (h.limits request (List.mem_cons_self ..)) (h.times request (List.mem_cons_self ..)) hcursor
      intro k hk
      rw [← hnext] at hk
      obtain ⟨c, rfl, rfl⟩ := Option.map_eq_some_iff.mp hk
      obtain ⟨holder, hrest⟩ := hnone _ c hserve (decodeCursor_encodeCursor (hrepresentable c rfl))
      have hchain := List.isChain_cons_cons.mp h.later
      have htail : Admissible location (later :: rest) :=
        ⟨fun other hother ↦ h.limits other (List.mem_cons_of_mem _ hother),
          fun other hother ↦ h.ids other (List.mem_cons_of_mem _ hother),
          fun other hother ↦ h.times other (List.mem_cons_of_mem _ hother), hchain.2⟩
      exact ⟨fun payment hpayment hbehind ↦ place_mem_of_later hchain.1
          (h.ids later (by simp)) hpayment (holder payment hpayment hbehind),
        ih htail hrepresentable hrest⟩

end Tokens

theorem Later.trans {first second third : List Payment} (h : Later first second)
    (h' : Later second third) : Later first third := by
  intro payment hpayment
  obtain ⟨mid, hmid, hevolves⟩ := h payment hpayment
  obtain ⟨last, hlast, hevolves'⟩ := h' mid hmid
  exact ⟨last, hlast, hevolves.trans hevolves'⟩

instance : Trans Later Later Later := ⟨Later.trans⟩

/-- What the first request meets is there in every later one. -/
theorem Admissible.later_of_mem {location : Time → Timestamp.Zone} {first : ListRequest}
    {rest : List ListRequest} (h : Admissible location (first :: rest)) {request : ListRequest}
    (hrequest : request ∈ first :: rest) : Later first.payments request.payments := by
  rcases List.mem_cons.mp hrequest with rfl | hrequest
  · exact fun payment hpayment ↦ ⟨payment, hpayment, .refl payment⟩
  · exact (List.pairwise_cons.mp h.later.pairwise).1 _ (List.mem_map_of_mem hrequest)

theorem nodup_place {payments : List Payment} (h : (payments.map Payment.id).Nodup) :
    (payments.map place).Nodup :=
  List.pairwise_map.mpr ((List.pairwise_map.mp h).imp fun hne hplace ↦
    hne (position_injective hplace).2)

/-- Rows of the requests at distinct positions have a payment of the first request once. -/
theorem Admissible.length_filter_id {location : Time → Timestamp.Zone} {first : ListRequest}
    {rest : List ListRequest} (h : Admissible location (first :: rest)) {payment : Payment}
    (hpayment : payment ∈ first.payments) {rows : List Payment}
    (hrows : ∀ row ∈ rows, ∃ request ∈ first :: rest, row ∈ request.payments)
    (hnodup : (rows.map place).Nodup) (hfound : place payment ∈ rows.map place) :
    (rows.filter fun row ↦ row.id = payment.id).length = 1 := by
  have hsame : ∀ row ∈ rows, decide (row.id = payment.id) = decide (place row = place payment) := by
    intro row hrow
    obtain ⟨request, hrequest, hmem⟩ := hrows row hrow
    exact decide_eq_decide.mpr ⟨place_eq_of_later (h.later_of_mem hrequest) (h.ids request hrequest)
      hpayment hmem, fun hplace ↦ (position_injective hplace).2⟩
  obtain ⟨row, hrow, hplace⟩ := List.mem_map.mp hfound
  rw [List.filter_congr hsame, filter_eq_lookup hnodup, ← hplace, lookup_of_mem hnodup hrow]
  rfl

theorem ListRequest.size_pos {request : ListRequest} (h : (pageSize request.limit).isSome) :
    0 < request.size := by
  obtain ⟨size, hsize⟩ := Option.isSome_iff_exists.mp h
  rw [ListRequest.size, hsize, Option.getD_some]
  unfold pageSize at hsize
  split at hsize
  · obtain rfl := Option.some.inj hsize
    decide
  · obtain ⟨n, -, rfl⟩ := Option.map_eq_some_iff.mp hsize
    unfold clampLimit maxListLimit
    split
    · decide
    · split <;> omega

/-- The position of a payment as a client sees it. -/
def PaymentResponse.key (payment : PaymentResponse) : Time ×ₗ ℕ :=
  toLex (payment.createdAt, payment.id.toNat)

/-- Following the tokens from the first page on succeeds.  The payments come newest first over the
whole walk, and no page is longer than its limit.  Once a response has no token, every payment that
was there at the first request has been shown exactly once; and such a response comes, after at most
as many pages as there were payments, if no payment older than a cursor is inserted. -/
theorem list_walk (rt : Runtime) {location : Time → Timestamp.Zone} {first : ListRequest}
    {rest : List ListRequest} (h : Admissible location (first :: rest)) :
    ∃ responses, follow rt location "" (first :: rest) = .ok responses ∧
      (responses.flatMap ListResponse.data).Pairwise (fun newer older ↦ older.key < newer.key) ∧
      (∀ response request, (response, request) ∈ responses.zip (first :: rest) →
        response.data.length ≤ request.size) ∧
      (Finished responses → ∀ payment ∈ first.payments,
        ((responses.flatMap ListResponse.data).filter fun shown ↦
          shown.id = payment.id).length = 1) ∧
      (NoneOlder rt location "" (first :: rest) → first.payments.length ≤ rest.length →
        Finished responses) := by
  have hnodup : ∀ visit ∈ (first :: rest).map ListRequest.visit, (visit.rows.map place).Nodup := by
    intro visit hvisit
    obtain ⟨request, hrequest, rfl⟩ := List.mem_map.mp hvisit
    exact nodup_place (h.ids request hrequest)
  have hlimit : ∀ visit ∈ (first :: rest).map ListRequest.visit, 0 < visit.limit := by
    intro visit hvisit
    obtain ⟨request, hrequest, rfl⟩ := List.mem_map.mp hvisit
    exact ListRequest.size_pos (h.limits request hrequest)
  obtain ⟨responses, hfollow, hdata, hfinished⟩ := @follow_tokenOf rt location none _ h.limits h.times
    fun c hc ↦ nomatch hc
  obtain ⟨hincreasing, -⟩ := @pages_increasing _ _ _ place none _ hnodup
  have hshown : responses.flatMap ListResponse.data =
      (pages place none ((first :: rest).map ListRequest.visit)).flatten.map toPaymentResponse := by
    rw [List.flatMap_def, hdata, List.map_flatten]
    rfl
  refine ⟨responses, hfollow, ?_, ?_, ?_, ?_⟩
  · rw [hshown]
    exact List.pairwise_map.mpr (List.pairwise_map.mp hincreasing)
  · intro response request hmem
    have hpair : (response.data, request.visit) ∈ (responses.map ListResponse.data).zip
        ((first :: rest).map ListRequest.visit) := by
      rw [List.zip_map]
      exact List.mem_map_of_mem hmem
    rw [hdata, List.zip_map_left] at hpair
    obtain ⟨⟨shown, visit⟩, hshown, heq⟩ := List.mem_map.mp hpair
    obtain ⟨hlist, rfl⟩ := Prod.mk.inj heq
    rw [← hlist, List.length_map]
    exact length_le_of_mem_zip hshown
  · intro hend payment hpayment
    have hthere : ∀ visit ∈ (first :: rest).map ListRequest.visit,
        place payment ∈ visit.rows.map place := by
      intro visit hvisit
      obtain ⟨request, hrequest, rfl⟩ := List.mem_map.mp hvisit
      obtain ⟨later, hlater, hevolves⟩ := h.later_of_mem hrequest payment hpayment
      refine List.mem_map.mpr ⟨later, hlater, ?_⟩
      rcases hevolves with rfl | ⟨reversal, rfl⟩ <;> rfl
    have hfound := @mem_pages_of_ends _ _ _ place none _ hnodup hlimit _ hthere
      (fun _ hnone ↦ nomatch hnone) (hfinished.mp hend)
    rw [hshown, List.filter_map, List.length_map]
    refine h.length_filter_id hpayment (fun row hrow ↦ ?_) (hincreasing.imp ne_of_lt) hfound
    obtain ⟨visit, hvisit, hmem⟩ := mem_of_mem_pages hrow
    obtain ⟨request, hrequest, rfl⟩ := List.mem_map.mp hvisit
    exact ⟨request, hrequest, hmem⟩
  · intro hnone hlength
    refine hfinished.mpr (ends_of_undisturbed hnodup hlimit (undisturbed_of_noneOlder rt h
      (fun c hc ↦ nomatch hc) hnone) ?_)
    rw [List.length_map]
    exact (length_after_le ..).trans hlength

/-- Encodings that write nothing. -/
def mute : Runtime where
  sha256 := id
  marshal _ := []
  decodeCreateRequest _ := none
  encodePaymentResponse _ := []
  encodeErrorEnvelope _ := []
  decodeID _ := none

def listed (id : UUID) (createdAt : Time) : Payment :=
  ⟨id, .completed, "USDC", 5, 1, 2, 7, none, createdAt⟩

/-- Two payments of one instant, read one by one.  In between the second is canceled and a newer one is
created. -/
def sampleRequests : List ListRequest :=
  [⟨[listed 3 2000, listed 4 2000], "-7"⟩, ⟨[(listed 3 2000).cancel none, listed 4 2000, listed 5 9000], "1"⟩,
    ⟨[(listed 3 2000).cancel none, listed 4 2000, listed 5 9000], ""⟩]

theorem list_walk_sample :
    ∃ responses, follow mute (fun _ ↦ .utc) "" sampleRequests = .ok responses ∧
      Finished responses ∧
      ((responses.flatMap ListResponse.data).filter fun shown ↦ shown.id = 3).length = 1 := by
  have htime : ∀ time, time = 2000 ∨ time = 9000 → Representable (fun _ ↦ .utc) time := by
    rintro time (rfl | rfl)
    · exact ⟨by decide, by decide +kernel, by decide +kernel⟩
    · exact ⟨by decide, by decide +kernel, by decide +kernel⟩
  have hlater : Later [listed 3 2000, listed 4 2000]
      [(listed 3 2000).cancel none, listed 4 2000, listed 5 9000] := by
    intro payment hpayment
    simp only [List.mem_cons, List.not_mem_nil, or_false] at hpayment
    rcases hpayment with rfl | rfl
    · exact ⟨(listed 3 2000).cancel none, by simp, .inr ⟨none, rfl⟩⟩
    · exact ⟨listed 4 2000, by simp, .inl rfl⟩
  have hadmissible : Admissible (fun _ ↦ .utc) sampleRequests :=
    ⟨by decide, by decide, fun request hrequest payment hpayment ↦ htime _
      ((by decide : ∀ request ∈ sampleRequests, ∀ payment ∈ request.payments,
        payment.createdAt = 2000 ∨ payment.createdAt = 9000) request hrequest payment hpayment),
      .cons_cons hlater (.cons_cons (fun payment hpayment ↦ ⟨payment, hpayment, .refl payment⟩)
        (.singleton _))⟩
  have hended : (follow mute (fun _ ↦ .utc) "" sampleRequests).toOption.map
      (fun responses ↦ responses.map fun response ↦ decide (response.nextCursor = "")) =
        some [false, true] := by
    decide +kernel
  obtain ⟨responses, hfollow, -, -, honce, -⟩ := list_walk mute hadmissible
  have hfinished : Finished responses := by
    rw [sampleRequests, hfollow] at hended
    have hcursors : (responses.map fun response ↦ decide (response.nextCursor = "")) = [false, true] :=
      Option.some.inj hended
    have htrue : true ∈ responses.map fun response ↦ decide (response.nextCursor = "") := by
      rw [hcursors]
      decide
    obtain ⟨response, hresponse, hempty⟩ := List.mem_map.mp htrue
    exact ⟨response, hresponse, of_decide_eq_true hempty⟩
  exact ⟨responses, hfollow, hfinished, honce hfinished (listed 3 2000) (by decide)⟩

end PaymentRail.Api
