import PaymentRail.Codec.Except
import PaymentRail.Codec.Hex

/-!
# URLs

The grammar that `url.Parse` of the Go library reads, and what it does with escapes and with hosts.  A
Go string is given by its bytes, each as a character.

`components` cuts a text at its delimiters as RFC 3986 does, whatever stands between them, so that every
text has a scheme and a host or lacks them.

How a host is read differs between the releases of the library; a `Release` is any way that keeps two
laws, and `Release.classic` is one.
-/

namespace PaymentRail.Url

/-! ### Cutting -/

/-- `strings.Cut`: what stands before the first separator, and behind it if there is one. -/
def cut (sep : Char) : List Char → List Char × Option (List Char)
  | [] => ([], none)
  | c :: rest => if c = sep then ([], some rest) else (c :: (cut sep rest).1, (cut sep rest).2)

/-- What stands before the last separator if there is one, and behind it. -/
def cutLast (sep : Char) : List Char → Option (List Char) × List Char
  | [] => (none, [])
  | c :: rest =>
    match cutLast sep rest with
    | (some before, after) => (some (c :: before), after)
    | (none, after) => if c = sep then (some [], after) else (none, c :: after)

/-- A character that does not end a scheme. -/
def inSegment (c : Char) : Bool := c != ':' && c != '/' && c != '?' && c != '#'

/-- The name before a colon, with no other delimiter before that. -/
def splitScheme (text : List Char) : Option (List Char) × List Char :=
  match text.takeWhile inSegment, text.dropWhile inSegment with
  | c :: name, ':' :: rest => (some (c :: name), rest)
  | _, _ => (none, text)

/-- What stands behind two slashes up to the next one. -/
def splitAuthority : List Char → Option (List Char) × List Char
  | '/' :: '/' :: rest => (some (rest.takeWhile (· ≠ '/')), rest.dropWhile (· ≠ '/'))
  | text => (none, text)

structure Components where
  scheme : Option (List Char)
  userinfo : Option (List Char)
  host : Option (List Char)
  path : List Char
  query : Option (List Char)
  fragment : Option (List Char)
  deriving DecidableEq

/-- The parts of a text, well formed or not. -/
def components (text : List Char) : Components :=
  let main := (cut '#' text).1
  let rest := (splitScheme main).2
  let hierarchy := (cut '?' rest).1
  let authority := (splitAuthority hierarchy).1.map (cutLast '@')
  { scheme := (splitScheme main).1
    userinfo := authority.bind Prod.fst
    host := authority.map Prod.snd
    path := (splitAuthority hierarchy).2
    query := (cut '?' rest).2
    fragment := (cut '#' text).2 }

/-! ### Escapes -/

/-- The parts of a URL by what may be escaped in them; those that no function here reads are left out. -/
inductive Encoding where
  | path
  | userPassword
  | host
  | zone
  | fragment
  deriving DecidableEq

/-- `shouldEscape` for a host. -/
def shouldEscape (c : Char) : Bool :=
  !(c.isAlphanum || "!$&'()*+,;=:[]<>\"-_.~".toList.contains c)

/-- An escape that may not stand here: a host escapes only what is not ASCII, and a percent sign. -/
def Encoding.refusesEscape (mode : Encoding) (high low : ℕ) : Bool :=
  match mode with
  | .host => high < 8 && !(high = 2 && low = 5)
  | .zone =>
    let c := Char.ofNat (high * 16 + low)
    !(high = 2 && low = 5) && c ≠ ' ' && shouldEscape c
  | _ => false

/-- A character that may not stand here. -/
def Encoding.refuses (mode : Encoding) (c : Char) : Bool :=
  match mode with
  | .host | .zone => c.toNat < 0x80 && shouldEscape c
  | _ => false

/-- `stringContainsCTLByte`, for one byte. -/
def isControl (c : Char) : Bool := c.toNat < 0x20 || c.toNat = 0x7f

/-- A character that a host can have. -/
def hostChar (c : Char) : Bool := !isControl c && c != '/' && c != '?' && c != '#' && c != '@'

section Parse

variable (quote : String → String)

/-- `EscapeError.Error`. -/
def escapeError (text : List Char) : String := "invalid URL escape " ++ quote (String.ofList text)

/-- `InvalidHostError.Error`. -/
def invalidHostError (c : Char) : String :=
  "invalid character " ++ quote (String.singleton c) ++ " in host name"

def unescape (mode : Encoding) : List Char → Except String (List Char)
  | [] => .ok []
  | c :: rest =>
    if c = '%' then
      match rest with
      | high :: low :: after =>
        match Hex.digitValue high, Hex.digitValue low with
        | some first, some second =>
          if mode.refusesEscape first second then .error (escapeError quote ['%', high, low])
          else (unescape mode after).map (Char.ofNat (first * 16 + second) :: ·)
        | _, _ => .error (escapeError quote ['%', high, low])
      | short => .error (escapeError quote ('%' :: short))
    else if mode.refuses c then .error (invalidHostError quote c)
    else (unescape mode rest).map (c :: ·)

/-- The checks of `unescape`, for a part whose value nobody reads. -/
def checkEscapes (mode : Encoding) (text : List Char) : Except String Unit :=
  (unescape quote mode text).map fun _ ↦ ()

def validOptionalPort : List Char → Bool
  | [] => true
  | c :: digits => c = ':' && digits.all Char.isDigit

/-- `strings.Index` of `%25`: what stands before it, and from there on. -/
def splitZone : List Char → Option (List Char × List Char)
  | [] => none
  | c :: rest =>
    if "%25".toList.isPrefixOf (c :: rest) then some ([], c :: rest)
    else (splitZone rest).map fun (address, zone) ↦ (c :: address, zone)

/-- `parseHost` as it was until Go 1.25.  Later releases refuse more: what is not an address between the
brackets, and a second colon. -/
def parseHost (host : List Char) : Except String (List Char) :=
  let invalidPort (port : List Char) := "invalid port " ++ quote (String.ofList port) ++ " after host"
  if host.head? = some '[' then
    match cutLast ']' host with
    | (none, _) => .error "missing ']' in host"
    | (some literal, port) =>
      if ¬validOptionalPort port then .error (invalidPort port)
      else
        match splitZone literal with
        | none => unescape quote .host host
        | some (address, zone) => do
          let address ← unescape quote .host address
          let zone ← unescape quote .zone zone
          let port ← unescape quote .host (']' :: port)
          return address ++ zone ++ port
  else
    match cutLast ':' host with
    | (none, _) => unescape quote .host host
    | (some _, port) =>
      if ¬validOptionalPort (':' :: port) then .error (invalidPort (':' :: port))
      else unescape quote .host host

end Parse

/-- What differs between releases of the library, and the laws that all of them keep: how a text is
quoted in an error, and how the host of a URL with a given scheme is read. -/
structure Release where
  quote : String → String
  parseHost : (scheme host : List Char) → Except String (List Char)
  hostChar_of_mem : ∀ {scheme host text : List Char}, parseHost scheme host = .ok text →
    ∀ c ∈ text, hostChar c
  eq_nil_iff : ∀ {scheme host text : List Char}, parseHost scheme host = .ok text →
    (text = [] ↔ host = [])

end PaymentRail.Url
