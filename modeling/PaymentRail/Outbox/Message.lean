import PaymentRail.Codec.Timestamp
import PaymentRail.Payments.Service

/-!
# The messages of the outbox

An envelope is written to the outbox as JSON, stored as `JSONB` and published as it is read back.  What
`JSONB` keeps of a text is its value, so a message is modelled by the JSON value that its text has:
`Envelope.json` is what `json.Marshal` makes of an envelope, `parseEnvelope` what `json.Unmarshal` reads
into one.  An envelope that was read has any value as its data.
-/

namespace PaymentRail.Outbox

/-- A JSON value; the numbers of the events are whole. -/
inductive Json where
  | null
  | bool (value : Bool)
  | num (value : ℤ)
  | str (value : String)
  | arr (items : List Json)
  | obj (fields : List (String × Json))

/-! ### Writing -/

def PaymentEvent.json (event : PaymentEvent) : Json :=
  .obj [("id", .str event.id.string), ("asset", .str event.asset), ("amount", .num event.amount.toInt),
    ("source_account_id", .str event.source.string), ("dest_account_id", .str event.dest.string),
    ("status", .str (Payments.statusText event.status))]

/-- An empty asset and a zero amount are omitted. -/
def SettlementEvent.json (event : SettlementEvent) : Json :=
  .obj ([("payment_id", .str event.paymentID.string), ("tx_hash", .str event.txHash)] ++
    (if event.asset = "" then [] else [("asset", .str event.asset)]) ++
    (if event.amount = 0 then [] else [("amount", .num event.amount.toInt)]))

def EventData.json : EventData → Json
  | .payment event => PaymentEvent.json event
  | .settlement event => SettlementEvent.json event

def Envelope.json (env : Envelope) : Json :=
  .obj [("id", .str env.id), ("type", .str env.type), ("aggregate_type", .str env.aggregateType),
    ("aggregate_id", .str env.aggregateID),
    ("occurred_at", .str (String.ofList (Timestamp.format .utc env.occurredAt))),
    ("schema_version", .num env.schemaVersion), ("data", EventData.json env.data)]

/-- A time in a year of four digits, which alone is written as JSON. -/
def Writable (time : Time) : Prop :=
  0 ≤ (Timestamp.Zone.utc.date time).year ∧ (Timestamp.Zone.utc.date time).year ≤ 9999

instance (time : Time) : Decidable (Writable time) := inferInstanceAs (Decidable (_ ∧ _))

/-- `json.Marshal`. -/
def marshal (env : Envelope) : Option Json :=
  if Writable env.occurredAt then some (Envelope.json env) else none

/-! ### Reading -/

/-- The envelope of a consumer. -/
structure Received where
  id : String
  type : String
  aggregateType : String
  aggregateID : String
  occurredAt : Time
  schemaVersion : ℤ
  data : Json

/-- The zero `time.Time`: the beginning of the year 1. -/
def zeroTime : Time := -62135596800000000000

def Received.zero : Received := ⟨"", "", "", "", zeroTime, 0, .null⟩

/-- The fields of an envelope. -/
inductive Field where
  | id
  | type
  | aggregateType
  | aggregateID
  | occurredAt
  | schemaVersion
  | data

def Field.name : Field → String
  | .id => "id"
  | .type => "type"
  | .aggregateType => "aggregate_type"
  | .aggregateID => "aggregate_id"
  | .occurredAt => "occurred_at"
  | .schemaVersion => "schema_version"
  | .data => "data"

def fields : List Field :=
  [.id, .type, .aggregateType, .aggregateID, .occurredAt, .schemaVersion, .data]

/-- `foldName`: case is ignored, also that of the two letters outside ASCII that fold into it. -/
def foldName (name : String) : List Char :=
  name.toList.map fun c ↦
    if c.toNat = 0x17f then 'S' else if c.toNat = 0x212a then 'K' else c.toUpper

/-- The field that a key of an object is read into: the one of its name, or one up to case. -/
def fieldOf (key : String) : Option Field :=
  (fields.find? fun field ↦ field.name = key).or
    (fields.find? fun field ↦ foldName field.name = foldName key)

def mismatch (field : Field) : String :=
  "json: cannot unmarshal into Go struct field Envelope." ++ field.name

def readString (field : Field) (old : String) : Json → Except String String
  | .str value => .ok value
  | .null => .ok old
  | _ => .error (mismatch field)

def readInt (field : Field) (old : ℤ) : Json → Except String ℤ
  | .num value => if -2 ^ 63 ≤ value ∧ value < 2 ^ 63 then .ok value else .error (mismatch field)
  | .null => .ok old
  | _ => .error (mismatch field)

/-- `Time.UnmarshalJSON`. -/
def readTime (old : Time) : Json → Except String Time
  | .str value =>
    match Timestamp.parse value.toList with
    | some time => .ok time
    | none => .error "parsing time"
  | .null => .ok old
  | _ => .error "Time.UnmarshalJSON: input is not a JSON string"

/-- Read a value into a field. -/
def Received.set (env : Received) (value : Json) : Field → Except String Received
  | .id => (readString .id env.id value).map fun id ↦ { env with id := id }
  | .type => (readString .type env.type value).map fun type ↦ { env with type := type }
  | .aggregateType =>
    (readString .aggregateType env.aggregateType value).map fun aggregateType ↦
      { env with aggregateType := aggregateType }
  | .aggregateID =>
    (readString .aggregateID env.aggregateID value).map fun aggregateID ↦
      { env with aggregateID := aggregateID }
  | .occurredAt =>
    (readTime env.occurredAt value).map fun occurredAt ↦ { env with occurredAt := occurredAt }
  | .schemaVersion =>
    (readInt .schemaVersion env.schemaVersion value).map fun schemaVersion ↦
      { env with schemaVersion := schemaVersion }
  | .data => .ok { env with data := value }

/-- Read one member of an object; unknown keys are ignored. -/
def Received.read (env : Received) (member : String × Json) : Except String Received :=
  match fieldOf member.1 with
  | none => .ok env
  | some field => env.set member.2 field

/-- `ParseEnvelope`. -/
def parseEnvelope (value : Json) : Except String Received :=
  (match value with
    | .obj members => members.foldlM Received.read .zero
    | .null => .ok .zero
    | _ => .error "json: cannot unmarshal into Go value of type outbox.Envelope").mapError
      ("parse outbox envelope: " ++ ·)

theorem fieldOf_name (field : Field) : fieldOf field.name = some field := by
  cases field <;> rfl

theorem read_name (env : Received) (field : Field) (value : Json) :
    env.read (field.name, value) = env.set value field := by
  rw [Received.read, fieldOf_name]

/-- What an envelope is read back as. -/
def Envelope.received (env : Envelope) : Received :=
  ⟨env.id, env.type, env.aggregateType, env.aggregateID, env.occurredAt, env.schemaVersion,
    EventData.json env.data⟩

/-- The members of an envelope one after the other, with the text that its time is read from. -/
theorem parseEnvelope_members {id type aggregateType aggregateID text : String} {occurredAt : Time}
    {version : ℤ} {data : Json} (htime : ∀ old, readTime old (.str text) = .ok occurredAt)
    (hversion : ∀ old, readInt .schemaVersion old (.num version) = .ok version) :
    parseEnvelope (.obj [(Field.id.name, .str id), (Field.type.name, .str type),
        (Field.aggregateType.name, .str aggregateType), (Field.aggregateID.name, .str aggregateID),
        (Field.occurredAt.name, .str text), (Field.schemaVersion.name, .num version),
        (Field.data.name, data)]) =
      .ok ⟨id, type, aggregateType, aggregateID, occurredAt, version, data⟩ := by
  simp only [parseEnvelope, List.foldlM_cons, List.foldlM_nil, read_name, Received.set, readString,
    htime, hversion, Except.map, bind, Except.bind]
  rfl

/-- An envelope that is written is read back. -/
theorem parseEnvelope_marshal {env : Envelope} {value : Json} (h : marshal env = some value)
    (hversion : env.schemaVersion = schemaVersion) :
    parseEnvelope value = .ok (Envelope.received env) := by
  unfold marshal at h
  split at h
  · next hwritable =>
    obtain rfl := Option.some.inj h
    refine parseEnvelope_members (fun old ↦ ?_) fun old ↦ ?_
    · rw [readTime, String.toList_ofList, Timestamp.parse_format hwritable.1 hwritable.2]
    · rw [hversion, readInt, if_pos (by decide)]
  · cases h

end PaymentRail.Outbox
