import PaymentRail.Codec.UrlParse

/-!
# Redacting the node's URL

The URL of a managed node carries an API key in its path, its query or its user.  `RedactRPCError` and
`redactEndpoint` reduce such a URL to its scheme and its host before it is printed.  The first of them
prints a URL that does not parse, or that has no host, as it is.

The errors come from `ethclient.DialContext`, which is no part of the rail: a `Dial` is any function that
keeps to what the callers of the two functions count on.
-/

namespace PaymentRail.Evm

open Url

/-- An error by its text and by what `errors.As` finds behind it: nothing, one error, several errors, or
the fields of a `url.Error`, whose text is made of them. -/
inductive GoError where
  | new (text : String)
  | wrap (text : String) (err : GoError)
  | join (text : String) (errs : List GoError)
  | urlError (op url : String) (err : GoError)

/-- A `url.Error`. -/
structure URLError where
  op : String
  url : String
  err : GoError

namespace GoError

/-- `Error`. -/
def text (quote : String → String) : GoError → String
  | .new text | .wrap text _ | .join text _ => text
  | .urlError op url err => op ++ " " ++ quote url ++ ": " ++ err.text quote

mutual

/-- `errors.As` with a `url.Error`: the first one of the chain. -/
def asURL : GoError → Option URLError
  | .new _ => none
  | .wrap _ err => err.asURL
  | .join _ errs => firstURL errs
  | .urlError op url err => some ⟨op, url, err⟩

def firstURL : List GoError → Option URLError
  | [] => none
  | err :: rest => err.asURL.or (firstURL rest)

end

end GoError

section Release

variable (r : Release)

/-- `ethclient.DialContext`, by the error that it returns for an endpoint.  Of the client library only what
the callers count on is known: a URL that `url.Parse` refuses is not dialed, and an endpoint of http or
https is not connected to before the first request. -/
structure Dial where
  error : String → Option GoError
  refused : ∀ {raw : String} {err : ParseError}, parse r raw.toList = .error err →
    error raw = some (.urlError "parse" (String.ofList err.url) (.new err.cause))
  lazy : ∀ {raw : String} {url : URL}, parse r raw.toList = .ok url →
    url.scheme ∈ ["http".toList, "https".toList] → error raw = none

/-- Two texts with the same scheme and host, that differ at most in the user, the path and the query. -/
structure SameEndpoint (u₁ u₂ : String) : Prop where
  scheme : (components u₁.toList).scheme = (components u₂.toList).scheme
  host : (components u₁.toList).host = (components u₂.toList).host
  fragment : (components u₁.toList).fragment = (components u₂.toList).fragment

variable {r}

theorem SameEndpoint.symm {u₁ u₂ : String} (h : SameEndpoint u₁ u₂) : SameEndpoint u₂ u₁ :=
  ⟨h.scheme.symm, h.host.symm, h.fragment.symm⟩

end Release

end PaymentRail.Evm
