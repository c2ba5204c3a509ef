import LegBoard.Board.Page

/-!
Which page a request asks for. A request is a URL, absolute or relative to the root of the site; its
path alone decides, once its dot segments are resolved. Only the root is a page.
-/
namespace LegBoard.Board

open LegBoard.Html (Node)

/-- The schemes whose URLs name a host and whose paths take a backslash for a slash. -/
inductive Scheme where
  /-- The scheme of the site itself, which is also that of relative URLs. -/
  | site
  /-- Another scheme with a host. -/
  | hosted
  /-- Files, with a host only behind two slashes. -/
  | file
  /-- A scheme of which nothing is known. -/
  | other
deriving DecidableEq, Repr

namespace Scheme

/-- The scheme of a name in lower case. -/
def ofName (name : String) : Scheme :=
  if name = "https" then .site
  else if ["http", "ws", "wss", "ftp"].contains name then .hosted
  else if name = "file" then .file
  else .other

/-- What parts the segments of a path. -/
def isSlash (scheme : Scheme) (c : Char) : Bool :=
  c == '/' || (scheme != .other && c == '\\')

end Scheme

namespace RequestUrl

/-- A character that is dropped at the two ends of a URL. -/
def isPadding (c : Char) : Bool := c.toNat ≤ 0x20

/-- A URL without what is dropped from it: padding at its ends, tabs and line ends within. -/
def clean (cs : List Char) : List Char :=
  (((cs.dropWhile isPadding).reverse.dropWhile isPadding).reverse).filter fun c =>
    !(c == '\t' || c == '\n' || c == '\r')

def isLetter (c : Char) : Bool := ('a' ≤ c && c ≤ 'z') || ('A' ≤ c && c ≤ 'Z')

/-- A character of a scheme behind its first letter. -/
def isSchemeChar (c : Char) : Bool :=
  isLetter c || ('0' ≤ c && c ≤ '9') || c == '+' || c == '-' || c == '.'

/-- The scheme of a URL and what follows its colon. A URL without one is relative to the site. -/
def splitScheme (cs : List Char) : Scheme × List Char :=
  let name := cs.takeWhile isSchemeChar
  match name, cs.dropWhile isSchemeChar with
  | c :: _, ':' :: rest =>
    if isLetter c then (.ofName (String.ofList (name.map Char.toLower)), rest) else (.site, cs)
  | _, _ => (.site, cs)

def withoutQuery (cs : List Char) : List Char := cs.takeWhile fun c => !(c == '?' || c == '#')

/-- The path behind a host, which ends at the first slash. -/
def afterHost (scheme : Scheme) (cs : List Char) : List Char :=
  cs.dropWhile fun c => !scheme.isSlash c

/-- The path of a URL of a scheme, its segments still unresolved. -/
def rawPath (scheme : Scheme) (cs : List Char) : List Char :=
  let slashes := cs.takeWhile scheme.isSlash
  let rest := cs.dropWhile scheme.isSlash
  match scheme with
  | .site => if slashes.length < 2 then cs else afterHost scheme rest
  | .hosted => afterHost scheme rest
  | .file => if slashes.length < 2 then cs else afterHost scheme (cs.drop 2)
  | .other => if slashes.length < 2 then cs else afterHost scheme (cs.drop 2)

def segments (scheme : Scheme) (path : List Char) : List (List Char) :=
  path.splitOnP scheme.isSlash

/-- A segment with the escapes of its dots undone, if it is made of those alone. -/
def dots : List Char → List Char
  | '%' :: '2' :: c :: cs => if c == 'e' || c == 'E' then '.' :: dots cs else '%' :: '2' :: c :: cs
  | '.' :: cs => '.' :: dots cs
  | cs => cs

/-- The segments of a path with those of dots resolved, behind the ones already found, which are
given in reverse. One dot leaves the path as it is and two take its last segment away; at the end
of a path both leave an empty segment behind. -/
def resolve : List (List Char) → List (List Char) → List (List Char)
  | found, [] => found.reverse
  | found, segment :: rest =>
    let found :=
      if dots segment = ['.', '.'] then found.tail
      else if dots segment = ['.'] then found
      else segment :: found
    let isDots := dots segment = ['.'] ∨ dots segment = ['.', '.']
    resolve (if isDots ∧ rest = [] then [] :: found else found) rest

/-- The resolved segments of the path that a URL asks for, or `none` if its path has no root. -/
def path? (url : String) : Option (List (List Char)) :=
  let (scheme, cs) := splitScheme (clean url.toList)
  let path := rawPath scheme (withoutQuery cs)
  match path with
  | [] => if scheme = .other then none else some [[]]
  | c :: rest =>
    if scheme.isSlash c then some (resolve [] (segments scheme rest))
    else if scheme = .other then none
    else some (resolve [] (segments scheme path))

end RequestUrl

inductive Route where
  | itinerary
  | notFound
deriving DecidableEq, Repr

/-- The page that a request asks for. The root may end in a second slash. -/
def Route.ofUrl (url : String) : Route :=
  match RequestUrl.path? url with
  | some [[]] => .itinerary
  | some [[], []] => .itinerary
  | _ => .notFound

def notFoundPage : Node := .element "p" [] [.text "404 - Page not found"]

def respond (settings : Settings) (url : String) : Node :=
  match Route.ofUrl url with
  | .itinerary => itineraryPage settings
  | .notFound => notFoundPage

end LegBoard.Board
