import Whiteboard.Data.Json
import Whiteboard.Path

namespace Whiteboard
namespace Http

/-!
Requests and responses.
-/

/-- A request; the target may end in a query. -/
structure Request where
  method : String
  target : String
  headers : List (String × String) := []
  body : String := ""

/-- A header by its name in any case; empty if it is not there. -/
def headerIn (headers : List (String × String)) (name : String) : String :=
  ((headers.find? fun h => Text.lowerText h.1 == Text.lowerText name).map (·.2)).getD ""

namespace Request

def header (r : Request) (name : String) : String :=
  headerIn r.headers name

def path (r : Request) : String :=
  String.ofList (r.target.toList.takeWhile (· != '?'))

def query (r : Request) : String :=
  String.ofList (r.target.toList.dropWhile (· != '?'))

end Request

inductive Body where
  | text (s : String)
  | data (d : Data)

def Body.sent : Body → String
  | text s => s
  | data d => Json.compact d ++ "\n"

structure Response where
  status : Int
  headers : List (String × String) := []
  body : Body := .text ""

namespace Response

def header (r : Response) (name : String) : String :=
  headerIn r.headers name

def adding (r : Response) (name value : String) : Response :=
  { r with headers := r.headers ++ [(name, value)] }

def ofData (status : Int) (d : Data) : Response where
  status := status
  headers := [("Content-Type", "application/json")]
  body := .data d

/-- A line of plain text that says why a request fails. -/
def refused (status : Int) (reason : String) : Response where
  status := status
  headers := [("Content-Type", "text/plain; charset=utf-8")]
  body := .text (reason ++ "\n")

def notFound : Response :=
  refused 404 "404 page not found"

end Response

def escapeMarkup (s : String) : String :=
  String.join (s.toList.map fun c =>
    match c with
    | '&' => "&amp;"
    | '<' => "&lt;"
    | '>' => "&gt;"
    | '"' => "&#34;"
    | '\'' => "&#39;"
    | c => c.toString)

/-- Sends the client to another place; only a `GET` is shown a page. -/
def Response.moved (r : Request) (place : String) : Response where
  status := 301
  headers := ("Location", place) ::
    (if r.method == "GET" || r.method == "HEAD" then
      [("Content-Type", "text/html; charset=utf-8")] else [])
  body := .text
    (if r.method == "GET" then
      "<a href=\"" ++ escapeMarkup place ++ "\">Moved Permanently</a>.\n\n" else "")

/-- A path without empty, `.` and `..` parts; a slash at its end stays. -/
def cleanPath (path : String) : String :=
  let rooted := if path.toList.head? == some '/' then path else "/" ++ path
  let cleaned := Path.clean rooted
  if rooted.toList.getLast? == some '/' && cleaned != "/" then cleaned ++ "/" else cleaned

/-- A request for a path that is not clean is sent to the clean one. -/
def redirection? (r : Request) : Option Response :=
  if cleanPath r.path == r.path then none else some (.moved r (cleanPath r.path ++ r.query))

end Http
end Whiteboard
