import CodeNav.Text.Quoted
import CodeNav.Url.Host

namespace CodeNav

inductive UrlError where
  | unbalancedBrackets
  | futureAddress
  | ipv4InBrackets
  | noAddress (host : Text)
  | ambiguousHost (host : Text)
  deriving DecidableEq, Repr

namespace UrlError

def message : UrlError → Text
  | unbalancedBrackets => "Invalid IPv6 URL"
  | futureAddress => "IPvFuture address is invalid"
  | ipv4InBrackets => "An IPv4 address cannot be in brackets"
  | noAddress host => host.quoted ++ " does not appear to be an IPv4 or IPv6 address"
  | ambiguousHost host =>
    "netloc '" ++ host ++ "' contains invalid characters under NFKC normalization"

end UrlError

namespace Url

/-- Characters with a compatibility form that holds one of the signs "/?#@:". -/
def delimiterLookalikes : List Nat := [
  0x2047, 0x2048, 0x2049, 0x2100, 0x2101, 0x2105, 0x2106, 0x2A74, 0xFE13, 0xFE16, 0xFE55, 0xFE56,
  0xFE5F, 0xFE6B, 0xFF03, 0xFF0F, 0xFF1A, 0xFF1F, 0xFF20
]

/-- The address without control characters and spaces at its start and without tabs and line ends.
-/
def cleaned (url : Text) : Text :=
  (url.dropWhile fun c => c.toNat ≤ 0x20).filter fun c => c != '\t' && c != '\r' && c != '\n'

def splitScheme (url : Text) : Text × Text :=
  match Text.cut? [':'] url with
  | some (s, r) =>
    let isSchemeChar (c : Char) : Bool := c.isAlphanum || c = '+' || c = '-' || c = '.'
    if s.head?.any Char.isAlpha && s.all isSchemeChar then (s.map Char.toLower, r) else ([], url)
  | none => ([], url)

def authority? (rest : Text) : Option Text :=
  (after? "//" rest).map fun r => r.takeWhile fun c => c != '/' && c != '?' && c != '#'

/-- The text between the first opening bracket and the closing one after it. -/
def bracketed (host : Text) : Text :=
  Text.before ']' ((host.dropWhile (· != '[')).drop 1)

def authorityError? (host : Text) : Option UrlError :=
  let brackets :=
    if host.contains '[' != host.contains ']' then some UrlError.unbalancedBrackets
    else if host.contains '[' then
      let t := bracketed host
      if "v".toList.isPrefixOf t then if isFutureIp t then none else some .futureAddress
      else if isIpv4 t then some .ipv4InBrackets
      else if isIpv6 t then none
      else some (.noAddress t)
    else none
  brackets.or
    (if host.any fun c => delimiterLookalikes.contains c.toNat then some (.ambiguousHost host)
    else none)

def scheme (url : Text) : Except UrlError Text :=
  let (s, rest) := splitScheme (cleaned url)
  match (authority? rest).bind authorityError? with
  | some e => .error e
  | none => .ok s

def isWeb (url : Text) : Except UrlError Bool :=
  (scheme url).map fun s => s = "http".toList || s = "https".toList

end Url

end CodeNav
