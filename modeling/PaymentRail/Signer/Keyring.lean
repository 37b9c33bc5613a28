import PaymentRail.Api.Server
import PaymentRail.Ctl.Commands
import Mathlib.Data.List.DropRight

/-!
# Loading the keyring

`LoadKeyring` of `internal/signer`: the manifest is read and decoded, and each of its entries is
checked and turned into a key, whose file must be private to its owner.  Nothing of a manifest is
dropped: one bad entry refuses all of it.

Files, the JSON decoder, the path functions and the cryptography are parameters (`Host`).  The errors of the
loader may be logged, so they must not depend on what a key file says, beyond whether it is a key at
all.  `Alike` relates two hosts that differ in just that.
-/

namespace PaymentRail.Signer

open Transaction
open Ledger (quote)

structure ManifestEntry where
  keyID : String
  keyFile : String
  chainID : UInt64
  spendLimit : String
  deriving DecidableEq

/-- What the loader runs on: `os.ReadFile`, the permission bits of `os.Stat`, `json.Unmarshal`,
`filepath.Dir` and `filepath.Join`, and of go-ethereum the private key that hex digits stand for, if they
do, and its address. -/
structure Host where
  readFile : String → Except String String
  perm : String → Except String UInt32
  unmarshal : String → Except String (List ManifestEntry)
  dir : String → String
  join : String → String → String
  hexToECDSA : List Char → Option (List UInt8)
  pubkeyToAddress : List UInt8 → Address

/-! ### Private keys -/

/-- `strings.TrimSpace`. -/
def trimSpace (text : List Char) : List Char := (text.dropWhile Api.isSpace).rdropWhile Api.isSpace

/-- `strings.TrimPrefix` with the prefix `0x`. -/
def trimHexMark (text : List Char) : List Char :=
  if text.take 2 = ['0', 'x'] then text.drop 2 else text

/-- The key in the contents of a key file. -/
def Host.keyOfFile (host : Host) (raw : String) : Option (List UInt8) :=
  host.hexToECDSA (trimHexMark (trimSpace raw.toList))

/-- `filepath.IsAbs`. -/
def isAbs (path : String) : Bool := path.toList.head? = some '/'

/-- The `%#o` verb. -/
def octal (mode : UInt32) : String := "0" ++ String.ofList (Nat.toDigits 8 mode.toNat)

/-! ### The loader -/

variable (host : Host)

/-- The checks of `loadKeyFile` on a path. -/
def readKeyFile (path : String) : Except Err (List UInt8 × Address) :=
  match host.perm path with
  | .error text => .error (.plain ("stat key_file: " ++ text))
  | .ok perm =>
    if perm &&& 0o077 ≠ 0 then
      .error (.plain ("key_file " ++ path ++ " is group/world-accessible (mode " ++ octal perm ++
        "); refusing to load"))
    else
      match host.readFile path with
      | .error text => .error (.plain ("read key_file: " ++ text))
      | .ok raw =>
        match host.keyOfFile raw with
        | none =>
          .error (.plain ("key_file " ++ path ++ " does not contain a valid hex private key"))
        | some key => .ok (key, host.pubkeyToAddress key)

def loadKeyFile (dir keyFile : String) : Except Err (List UInt8 × Address) :=
  if keyFile = "" then .error (.plain "key_file is required")
  else readKeyFile host (if isAbs keyFile then keyFile else host.join dir keyFile)

/-- The body of the loop of `LoadKeyring`: the key of one entry, given the keys before it. -/
def loadEntry (dir : String) (keys : List (String × KeyEntry)) (e : ManifestEntry) :
    Except Err KeyEntry :=
  if e.keyID = "" then .error (.plain "signer: manifest entry is missing key_id")
  else if (Table.valueAt keys e.keyID).isSome then
    .error (.plain ("signer: duplicate key_id " ++ quote e.keyID ++ " in manifest"))
  else
    let invalid : Err := .plain ("signer: key_id " ++ quote e.keyID ++ " has an invalid spend_limit")
    match Ctl.setString e.spendLimit with
    | none => .error invalid
    | some limit =>
      if hneg : limit < 0 then .error invalid
      else
        match loadKeyFile host dir e.keyFile with
        | .error err => .error (err.wrap ("signer: key_id " ++ quote e.keyID))
        | .ok (key, address) => .ok ⟨key, address, e.chainID, limit, not_lt.mp hneg⟩

def loadEntries (dir : String) : List ManifestEntry → List (String × KeyEntry) →
    Except Err (List (String × KeyEntry))
  | [], keys => .ok keys
  | e :: rest, keys =>
    match loadEntry host dir keys e with
    | .error err => .error err
    | .ok key => loadEntries dir rest (Table.setAt keys e.keyID key)

/-- The manifest at a path. -/
def readManifest (path : String) : Except Err (List ManifestEntry) :=
  match host.readFile path with
  | .error text => .error (.plain ("signer: read manifest: " ++ text))
  | .ok raw => (host.unmarshal raw).mapError fun text ↦ .plain ("signer: parse manifest: " ++ text)

def loadKeyring (manifestPath : String) : Except Err Keyring :=
  match readManifest host manifestPath with
  | .error err => .error err
  | .ok entries =>
    match loadEntries host (host.dir manifestPath) entries [] with
    | .error err => .error err
    | .ok [] => .error (.plain "signer: manifest contains no keys")
    | .ok keys => .ok ⟨Table.valueAt keys⟩

/-! ### What is loaded -/

/-- The path of a key file. -/
def keyPath (dir keyFile : String) : String :=
  if isAbs keyFile then keyFile else host.join dir keyFile

/-- A key file that is private to its owner and holds a key. -/
structure Sealed (path : String) (key : List UInt8) : Prop where
  owner : ∃ perm, host.perm path = .ok perm ∧ perm &&& 0o077 = 0
  content : ∃ raw, host.readFile path = .ok raw ∧ host.keyOfFile raw = some key

/-- A key that an entry of a manifest stands for. -/
structure Loaded (dir : String) (e : ManifestEntry) (key : KeyEntry) : Prop where
  named : e.keyID ≠ ""
  limit : Ctl.setString e.spendLimit = some key.limit
  chain : key.chainID = e.chainID
  file : e.keyFile ≠ "" ∧ Sealed host (keyPath host dir e.keyFile) key.privateKey
  address : key.address = host.pubkeyToAddress key.privateKey

variable {host} {dir : String} {keys keys' : List (String × KeyEntry)} {e : ManifestEntry}
  {key : KeyEntry} {entries : List ManifestEntry}

theorem loadKeyFile_eq_ok {keyFile : String} {secret : List UInt8} {address : Address} :
    loadKeyFile host dir keyFile = .ok (secret, address) ↔
      (keyFile ≠ "" ∧ Sealed host (keyPath host dir keyFile) secret) ∧
        address = host.pubkeyToAddress secret := by
  constructor
  · intro h
    unfold loadKeyFile at h
    split at h
    · cases h
    next hnamed =>
    unfold readKeyFile at h
    split at h
    · cases h
    next perm hperm =>
    split at h
    · cases h
    next hbits =>
    split at h
    · cases h
    next raw hraw =>
    split at h
    · cases h
    next key hkey =>
    cases h
    exact ⟨⟨hnamed, ⟨perm, hperm, not_not.mp hbits⟩, raw, hraw, hkey⟩, rfl⟩
  · rintro ⟨⟨hnamed, ⟨perm, hperm, hbits⟩, raw, hraw, hkey⟩, rfl⟩
    have hpath : readKeyFile host (keyPath host dir keyFile) =
        .ok (secret, host.pubkeyToAddress secret) := by
      simp only [readKeyFile, hperm, hbits, ne_eq, not_true_eq_false, if_false, hraw, hkey]
    rw [loadKeyFile, if_neg hnamed]
    exact hpath

theorem loadEntry_eq_ok : loadEntry host dir keys e = .ok key ↔
    Table.valueAt keys e.keyID = none ∧ Loaded host dir e key := by
  constructor
  · intro h
    unfold loadEntry at h
    split at h
    · cases h
    next hnamed =>
    split at h
    · cases h
    next hnew =>
    dsimp only at h
    split at h
    · cases h
    next limit hlimit =>
    split at h
    · cases h
    split at h
    · cases h
    next file address hfile =>
    cases h
    obtain ⟨hsealed, haddress⟩ := loadKeyFile_eq_ok.mp hfile
    exact ⟨Option.not_isSome_iff_eq_none.mp hnew, hnamed, hlimit, rfl, hsealed, haddress⟩
  · rintro ⟨hnew, hnamed, hlimit, hchain, hsealed, haddress⟩
    have hfile := loadKeyFile_eq_ok.mpr ⟨hsealed, haddress⟩
    rw [loadEntry, if_neg hnamed, hnew, if_neg (by simp)]
    simp only [hlimit, dif_neg (not_lt.mpr key.limit_nonneg), hfile, ← hchain]

/-- What is loaded was there before or stands for one entry; every entry stands for a key, and no two
share an id. -/
theorem loadEntries_eq_ok (h : loadEntries host dir entries keys = .ok keys') :
    (entries.map ManifestEntry.keyID).Nodup ∧
    (∀ e ∈ entries, Table.valueAt keys e.keyID = none ∧ ∃ key, Loaded host dir e key) ∧
    ∀ keyID key, Table.valueAt keys' keyID = some key ↔
      Table.valueAt keys keyID = some key ∨
        ∃ e ∈ entries, e.keyID = keyID ∧ Loaded host dir e key := by
  induction entries generalizing keys with
  | nil =>
    cases h
    simp
  | cons e rest ih =>
    simp only [loadEntries] at h
    split at h
    · cases h
    next key hkey =>
    obtain ⟨hnew, hloaded⟩ := loadEntry_eq_ok.mp hkey
    obtain ⟨hnodup, hfresh, hkeys⟩ := ih h
    have hother : ∀ r ∈ rest, r.keyID ≠ e.keyID := by
      intro r hr heq
      have hnone := (hfresh r hr).1
      rw [heq, Table.valueAt_setAt_self] at hnone
      cases hnone
    refine ⟨?_, ?_, fun keyID key' ↦ ?_⟩
    · rw [List.map_cons, List.nodup_cons]
      refine ⟨fun hmem ↦ ?_, hnodup⟩
      obtain ⟨r, hr, heq⟩ := List.mem_map.mp hmem
      exact hother r hr heq
    · intro r hr
      rcases List.mem_cons.mp hr with rfl | hr
      · exact ⟨hnew, key, hloaded⟩
      · obtain ⟨hnone, hload⟩ := hfresh r hr
        rw [Table.valueAt_setAt_of_ne _ (hother r hr)] at hnone
        exact ⟨hnone, hload⟩
    · rw [hkeys]
      by_cases hid : keyID = e.keyID
      · subst hid
        have hrest : ¬∃ r ∈ rest, r.keyID = e.keyID ∧ Loaded host dir r key' := by
          rintro ⟨r, hr, heq, -⟩
          exact hother r hr heq
        have hunique : key = key' ↔ Loaded host dir e key' := by
          constructor
          · rintro rfl
            exact hloaded
          · intro hload
            have hsame := loadEntry_eq_ok.mpr ⟨hnew, hload⟩
            exact Except.ok.inj (hkey.symm.trans hsame)
        rw [Table.valueAt_setAt_self, hnew, or_iff_left hrest, Option.some.injEq, hunique]
        simp only [reduceCtorEq, false_or, List.mem_cons, or_and_right, exists_or, exists_eq_left,
          true_and, or_iff_left hrest]
      · rw [Table.valueAt_setAt_of_ne _ hid]
        simp [Ne.symm hid]

theorem loadKeyring_eq_ok {path : String} {kr : Keyring} (h : loadKeyring host path = .ok kr) :
    ∃ entries, readManifest host path = .ok entries ∧ entries ≠ [] ∧
      (entries.map ManifestEntry.keyID).Nodup ∧
      (∀ e ∈ entries, ∃ key, Loaded host (host.dir path) e key) ∧
      ∀ keyID key, kr.lookup keyID = some key ↔
        ∃ e ∈ entries, e.keyID = keyID ∧ Loaded host (host.dir path) e key := by
  unfold loadKeyring at h
  split at h
  · cases h
  next entries hentries =>
  split at h
  · cases h
  · cases h
  next keys hnonempty hkeys =>
  cases h
  obtain ⟨hnodup, hloaded, hlookup⟩ := loadEntries_eq_ok hkeys
  refine ⟨entries, hentries, ?_, hnodup, fun e he ↦ (hloaded e he).2, fun keyID key ↦ ?_⟩
  · rintro rfl
    exact hnonempty (Except.ok.inj hkeys).symm
  · have hnone : Table.valueAt ([] : List (String × KeyEntry)) keyID = none := rfl
    rw [hlookup, hnone]
    simp

/-! ### What an error tells -/

/-- Two results that fail with the same error, or succeed with related values. -/
def Agree {ε α β : Type} (related : α → β → Prop) : Except ε α → Except ε β → Prop
  | .ok first, .ok second => related first second
  | .error err, .error err' => err = err'
  | _, _ => False

/-- Two hosts that differ in the contents of key files, where each has a key if the other has. -/
structure Alike (host other : Host) (manifestPath : String) : Prop where
  manifest : host.readFile manifestPath = other.readFile manifestPath
  perm : host.perm = other.perm
  unmarshal : host.unmarshal = other.unmarshal
  dir : host.dir = other.dir
  join : host.join = other.join
  files : ∀ path, (host.readFile path).map (fun raw ↦ (host.keyOfFile raw).isSome) =
    (other.readFile path).map (fun raw ↦ (other.keyOfFile raw).isSome)

/-- What a key is bound to, apart from the key itself. -/
def KeyEntry.terms (key : KeyEntry) : UInt64 × ℤ := (key.chainID, key.limit)

/-- Two maps of keys with the same ids and terms. -/
def SameTerms (first second : String → Option KeyEntry) : Prop :=
  ∀ keyID, (first keyID).map KeyEntry.terms = (second keyID).map KeyEntry.terms

section Alike

variable {other : Host} {path : String}

theorem agree_readKeyFile (h : Alike host other path) (keyFile : String) :
    Agree (fun _ _ ↦ True) (readKeyFile host keyFile) (readKeyFile other keyFile) := by
  have hfiles := h.files keyFile
  rw [readKeyFile, readKeyFile, h.perm]
  cases other.perm keyFile with
  | error text => rfl
  | ok perm =>
    dsimp only
    split
    · rfl
    · cases hfirst : host.readFile keyFile <;> cases hsecond : other.readFile keyFile <;>
        rw [hfirst, hsecond] at hfiles <;> simp only [Except.map, reduceCtorEq] at hfiles
      · cases hfiles
        rfl
      · next raw raw' =>
        have hkey := Except.ok.inj hfiles
        cases hraw : host.keyOfFile raw <;> cases hraw' : other.keyOfFile raw' <;>
          simp only [hraw, hraw', Option.isSome_none, Option.isSome_some, reduceCtorEq] at hkey
        · simp only [hraw, hraw']
          rfl
        · simp only [hraw, hraw']
          trivial

theorem agree_loadKeyFile (h : Alike host other path) (dir keyFile : String) :
    Agree (fun _ _ ↦ True) (loadKeyFile host dir keyFile) (loadKeyFile other dir keyFile) := by
  rw [loadKeyFile, loadKeyFile, h.join]
  split
  · rfl
  · exact agree_readKeyFile h _

theorem agree_loadEntry (h : Alike host other path)
    (hkeys : SameTerms (Table.valueAt keys) (Table.valueAt keys')) (dir : String)
    (e : ManifestEntry) :
    Agree (fun key key' ↦ key.terms = key'.terms) (loadEntry host dir keys e)
      (loadEntry other dir keys' e) := by
  have hsome : (Table.valueAt keys e.keyID).isSome = (Table.valueAt keys' e.keyID).isSome := by
    rw [← Option.isSome_map, hkeys, Option.isSome_map]
  have hfile := agree_loadKeyFile h dir e.keyFile
  rw [loadEntry, loadEntry, hsome]
  split
  · rfl
  split
  · rfl
  dsimp only
  split
  · rfl
  split
  · rfl
  cases hfirst : loadKeyFile host dir e.keyFile <;>
    cases hsecond : loadKeyFile other dir e.keyFile <;> rw [hfirst, hsecond] at hfile
  · cases hfile
    rfl
  · exact hfile.elim
  · exact hfile.elim
  · rfl

theorem SameTerms.setAt (h : SameTerms (Table.valueAt keys) (Table.valueAt keys')) (keyID : String)
    {key key' : KeyEntry} (hterms : key.terms = key'.terms) :
    SameTerms (Table.valueAt (Table.setAt keys keyID key))
      (Table.valueAt (Table.setAt keys' keyID key')) := by
  intro id
  by_cases hid : id = keyID
  · subst hid
    rw [Table.valueAt_setAt_self, Table.valueAt_setAt_self, Option.map_some, Option.map_some, hterms]
  · rw [Table.valueAt_setAt_of_ne _ hid, Table.valueAt_setAt_of_ne _ hid]
    exact h id

theorem agree_loadEntries (h : Alike host other path)
    (hkeys : SameTerms (Table.valueAt keys) (Table.valueAt keys')) :
    Agree (fun keys keys' ↦ SameTerms (Table.valueAt keys) (Table.valueAt keys'))
      (loadEntries host dir entries keys) (loadEntries other dir entries keys') := by
  induction entries generalizing keys keys' with
  | nil => exact hkeys
  | cons e rest ih =>
    have hentry := agree_loadEntry h hkeys dir e
    rw [loadEntries, loadEntries]
    cases hfirst : loadEntry host dir keys e <;> cases hsecond : loadEntry other dir keys' e <;>
      rw [hfirst, hsecond] at hentry
    · exact hentry
    · exact hentry.elim
    · exact hentry.elim
    · exact ih (hkeys.setAt e.keyID hentry)

theorem SameTerms.eq_nil (h : SameTerms (Table.valueAt keys) (Table.valueAt keys'))
    (hnil : keys = []) : keys' = [] := by
  subst hnil
  cases keys' with
  | nil => rfl
  | cons pair rest =>
    have hsome : (Table.valueAt (pair :: rest) pair.1).isSome := by
      simp [Table.isSome_valueAt_iff]
    have hnone := h pair.1
    rw [Option.isSome_iff_exists] at hsome
    obtain ⟨key, hkey⟩ := hsome
    rw [hkey] at hnone
    cases hnone

theorem agree_loadKeyring (h : Alike host other path) :
    Agree (fun kr kr' ↦ SameTerms kr.lookup kr'.lookup) (loadKeyring host path)
      (loadKeyring other path) := by
  have hmanifest : readManifest host path = readManifest other path := by
    rw [readManifest, readManifest, h.manifest, h.unmarshal]
  rw [loadKeyring, loadKeyring, hmanifest, h.dir]
  cases readManifest other path with
  | error err => rfl
  | ok entries =>
    have hentries : Agree _ (loadEntries host (other.dir path) entries [])
        (loadEntries other (other.dir path) entries []) := agree_loadEntries h fun _ ↦ rfl
    dsimp only
    cases hfirst : loadEntries host (other.dir path) entries [] <;>
      cases hsecond : loadEntries other (other.dir path) entries [] <;>
      rw [hfirst, hsecond] at hentries
    · exact hentries
    · exact hentries.elim
    · exact hentries.elim
    · next keys keys' =>
      have hsame : SameTerms (Table.valueAt keys) (Table.valueAt keys') := hentries
      have hsymm : SameTerms (Table.valueAt keys') (Table.valueAt keys) := fun id ↦ (hsame id).symm
      cases keys with
      | nil =>
        obtain rfl := hsame.eq_nil rfl
        rfl
      | cons pair rest =>
        cases keys' with
        | nil => cases hsymm.eq_nil rfl
        | cons pair' rest' => exact hsame

end Alike

/-- A keyring that was loaded holds every entry of its manifest and nothing else: under distinct ids
that are not empty, on the chain and with the limit of the entry, and with the key of a file that only
its owner can access.  And the loader's answer, its errors included, is the same for any other contents
of the key files: it shows only whether they hold keys. -/
theorem keyring_fails_closed (host : Host) (path : String) :
    (∀ kr, loadKeyring host path = .ok kr → ∃ entries, readManifest host path = .ok entries ∧
      entries ≠ [] ∧ (entries.map ManifestEntry.keyID).Nodup ∧
      (∀ e ∈ entries, e.keyID ≠ "" ∧ ∃ key, kr.lookup e.keyID = some key ∧
        Ctl.setString e.spendLimit = some key.limit ∧ key.chainID = e.chainID ∧
        Sealed host (keyPath host (host.dir path) e.keyFile) key.privateKey ∧
        key.address = host.pubkeyToAddress key.privateKey) ∧
      ∀ keyID key, kr.lookup keyID = some key → ∃ e ∈ entries, e.keyID = keyID) ∧
    ∀ other, Alike host other path →
      Agree (fun kr kr' ↦ SameTerms kr.lookup kr'.lookup) (loadKeyring host path)
        (loadKeyring other path) := by
  refine ⟨fun kr hkr ↦ ?_, fun other halike ↦ agree_loadKeyring halike⟩
  obtain ⟨entries, hmanifest, hnonempty, hnodup, hloaded, hlookup⟩ := loadKeyring_eq_ok hkr
  refine ⟨entries, hmanifest, hnonempty, hnodup, fun e he ↦ ?_, fun keyID key hkey ↦ ?_⟩
  · obtain ⟨key, hkey⟩ := hloaded e he
    exact ⟨hkey.named, key, (hlookup _ _).mpr ⟨e, he, rfl, hkey⟩, hkey.limit, hkey.chain,
      hkey.file.2, hkey.address⟩
  · obtain ⟨e, he, hid, -⟩ := (hlookup keyID key).mp hkey
    exact ⟨e, he, hid⟩

/-- A host with one key, for chain 1 and a limit of 99. -/
def sampleHost (secret : Char) : Host where
  readFile path :=
    if path = "keys.json" then .ok "[…]"
    else if path = "keys/ops.key" then .ok (String.ofList (List.replicate 64 secret ++ ['\n']))
    else .error "no such file"
  perm _ := .ok 0o600
  unmarshal _ := .ok [⟨"ops", "ops.key", 1, "99"⟩]
  dir _ := "keys"
  join dir keyFile := dir ++ "/" ++ keyFile
  hexToECDSA digits := if digits.length = 64 then some (decodePairs digits) else none
  pubkeyToAddress key := Address.ofBytes key

/-- Two keys are loaded on the same terms. -/
theorem keyring_fails_closed_sample : ∃ kr kr',
    loadKeyring (sampleHost '1') "keys.json" = .ok kr ∧
    loadKeyring (sampleHost 'a') "keys.json" = .ok kr' ∧ SameTerms kr.lookup kr'.lookup := by
  have halike : Alike (sampleHost '1') (sampleHost 'a') "keys.json" := by
    refine ⟨rfl, rfl, rfl, rfl, rfl, fun path ↦ ?_⟩
    simp only [sampleHost]
    split
    · rfl
    · split
      · decide +kernel
      · rfl
  have hfirst : (loadKeyring (sampleHost '1') "keys.json").isOk = true := by decide +kernel
  have hsecond : (loadKeyring (sampleHost 'a') "keys.json").isOk = true := by decide +kernel
  obtain ⟨kr, hkr⟩ := isOk_iff.mp hfirst
  obtain ⟨kr', hkr'⟩ := isOk_iff.mp hsecond
  have hagree := (keyring_fails_closed (sampleHost '1') "keys.json").2 _ halike
  rw [hkr, hkr'] at hagree
  exact ⟨kr, kr', hkr, hkr', hagree⟩

end PaymentRail.Signer
