import TradeIn.Http.Percent
import TradeIn.Json.Reader

/-!
# Requests and responses

A request has a method, a path with a query, perhaps a content type, and a body. The query is read like a record
whose members are strings, and a body like a text, but only under a content type that says JSON.
-/

namespace TradeIn.Http

/-- A request. -/
structure Request where
  method : String
  /-- The path, and the query after a question mark. A scheme and an authority may stand before them. -/
  target : String
  contentType : Option String
  body : String
  deriving DecidableEq, Repr

/-- A response; one without a JSON body has none here. -/
structure Response where
  status : Nat
  body : Option Json
  deriving DecidableEq, Repr

namespace Request

/-- The characters of a scheme. -/
def isSchemeChar (c : Char) : Bool := c.isAlphanum || "+-.~".toList.contains c

/-- The path and the query of a target that may name a scheme and an authority: `scheme://authority/path?query`. -/
def withoutAuthority (target : List Char) : List Char :=
  match target.dropWhile isSchemeChar with
  | ':' :: '/' :: '/' :: rest => rest.dropWhile fun c => c ≠ '/' && c ≠ '?'
  | _ => target

/-- The path and the query, without a fragment. -/
def resource (request : Request) : List Char :=
  withoutAuthority (request.target.toList.takeWhile (· ≠ '#'))

/-- The path without the query. -/
def path (request : Request) : String := String.ofList (request.resource.takeWhile (· ≠ '?'))

/-- The query without the question mark. -/
def query (request : Request) : String := String.ofList ((request.resource.dropWhile (· ≠ '?')).drop 1)

/-- A key and its value as they stand in a query. A key without an equals sign has an empty value. -/
def queryPair (part : String) : String × String :=
  let cs := part.toList
  (decodeFormPart (String.ofList (cs.takeWhile (· ≠ '='))),
    decodeFormPart (String.ofList ((cs.dropWhile (· ≠ '=')).drop 1)))

/-- The keys and values of the query in order, without empty parts. -/
def queryPairs (request : Request) : List (String × String) :=
  ((request.query.splitOn "&").filter fun part => !part.isEmpty).map queryPair

/-- Read the query as a record. -/
def readQuery {α : Type} (reader : Reader α) (request : Request) : Except Fault α :=
  reader (.object (request.queryPairs.map fun pair => (some pair.1, .string pair.2)) true)

end Request

/-- The characters of the names in a content type. -/
def isTokenChar (c : Char) : Bool := c.isAlphanum || "!#$%&'*+-.^_`|~".toList.contains c

/-- Whether a text is a name in a content type. -/
def isToken (cs : List Char) : Bool := !cs.isEmpty && cs.all isTokenChar

/-- Whether a media type says JSON: `application/json`, or `application/` with a name that ends in `+json`. -/
def isJsonMediaType (mediaType : List Char) : Bool :=
  let lower := mediaType.map Char.toLower
  let main := lower.takeWhile (· ≠ '/')
  let sub := (lower.dropWhile (· ≠ '/')).drop 1
  let beforePlus := ((sub.reverse.dropWhile (· ≠ '+')).drop 1).reverse
  let afterPlus := (sub.reverse.takeWhile (· ≠ '+')).reverse
  main == "application".toList && isToken sub &&
    (sub == "json".toList || (!beforePlus.isEmpty && (afterPlus == "json".toList || beforePlus == "json".toList)))

/-- What follows a quoted value, of which the opening quote is gone. A quoted value has at least one character, so the
first one never closes it, even if it is a quote. -/
def afterQuoted? : List Char → Option (List Char)
  | [] => none
  | _ :: value =>
    match value.dropWhile (· ≠ '"') with
    | [] => none
    | _ :: rest => some rest

/-- Whether a text is a list of parameters, each `name=value` with a value that may be quoted. Only the last value may
be missing. There may be at most `limit` parameters. -/
def areParameters : (limit : Nat) → List Char → Bool
  | 0, _ => false
  | limit + 1, cs =>
    match cs.dropWhile (· = ' ') with
    | [] => true
    | cs =>
      match isToken (cs.takeWhile (· ≠ '=')), cs.dropWhile (· ≠ '=') with
      | true, ['='] => true
      | true, '=' :: '"' :: quoted =>
        match (afterQuoted? quoted).map fun rest => rest.dropWhile (· = ' ') with
        | some [] => true
        | some (';' :: rest) => areParameters limit rest
        | _ => false
      | true, '=' :: value =>
        isToken (value.takeWhile (· ≠ ';')) && areParameters limit ((value.dropWhile (· ≠ ';')).drop 1)
      | _, _ => false

/-- Whether a character may stand in a content type. -/
def isVisible (c : Char) : Bool := ' ' ≤ c && c ≤ '~'

/-- Whether a content type says JSON, whatever its parameters. -/
def isJsonContentType (contentType : String) : Bool :=
  let cs := contentType.toList
  cs.all isVisible && isJsonMediaType (cs.takeWhile (· ≠ ';')) &&
    areParameters (cs.length + 1) ((cs.dropWhile (· ≠ ';')).drop 1)

/-- How many bytes the body of a request may have. -/
def maxBodyBytes : Nat := 1048576

/-- Why a request is refused before an operation sees it. -/
inductive Rejection where
  /-- The path or the query is not what the operation takes, or the body is no JSON. -/
  | badRequest
  | notFound
  | methodNotAllowed
  | bodyTooLarge
  | unsupportedMediaType
  /-- The body is JSON, but not of the type that the operation takes. -/
  | unprocessable
  deriving DecidableEq, Repr

namespace Rejection

/-- The status of the response. -/
def status : Rejection → Nat
  | badRequest => 400
  | notFound => 404
  | methodNotAllowed => 405
  | bodyTooLarge => 413
  | unsupportedMediaType => 415
  | unprocessable => 422

/-- How a body that cannot be read is refused. -/
def ofBodyFault : Fault → Rejection
  | .malformed => badRequest
  | .mismatched => unprocessable

end Rejection

namespace Request

/-- Read the body. -/
def readBody {α : Type} (reader : Reader α) (request : Request) : Except Rejection α :=
  if !request.contentType.any isJsonContentType then .error .unsupportedMediaType
  else if maxBodyBytes < request.body.utf8ByteSize then .error .bodyTooLarge
  else (Reader.ofText reader request.body).mapError Rejection.ofBodyFault

end Request

end TradeIn.Http
