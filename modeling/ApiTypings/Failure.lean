import ApiTypings.Decode.Envelope
import ApiTypings.File.System
import ApiTypings.Template.Basic
import ApiTypings.Typing.Endpoints
import ApiTypings.Url.Host

/-! # Failures

Why a run ends without a result. What a template engine, a network or a file system has to say
in addition is not part of the messages that name them.
-/

namespace ApiTypings

inductive TransportError where
  | envelope (origin : String) (e : EnvelopeError)
  | status (url : String) (code : Nat)
  | unreachable (url : String)
  | unreadable (path : String) (reason : FileError)
  | invalidId (id : String)
deriving DecidableEq, Repr

inductive ConfigError where
  | unreadable (path : String) (reason : FileError)
  | noShareId
  | emptyShareId
  | invalidBase (base : String) (e : UrlError)
  | invalidTail (tail : String) (e : UrlError)
  | refusedDirectory (dir : String)
deriving DecidableEq, Repr

inductive Failure where
  | file (e : FileError)
  | settings
  | template (e : TemplateError)
  | config (e : ConfigError)
  | transport (e : TransportError)
  | missingResponse (m : MissingResponse)
deriving DecidableEq, Repr

def reasonPhrase : Nat → String
  | 100 => "Continue"
  | 101 => "Switching Protocols"
  | 102 => "Processing"
  | 200 => "OK"
  | 201 => "Created"
  | 202 => "Accepted"
  | 203 => "Non Authoritative Information"
  | 204 => "No Content"
  | 205 => "Reset Content"
  | 206 => "Partial Content"
  | 207 => "Multi-Status"
  | 208 => "Already Reported"
  | 226 => "IM Used"
  | 300 => "Multiple Choices"
  | 301 => "Moved Permanently"
  | 302 => "Found"
  | 303 => "See Other"
  | 304 => "Not Modified"
  | 305 => "Use Proxy"
  | 307 => "Temporary Redirect"
  | 308 => "Permanent Redirect"
  | 400 => "Bad Request"
  | 401 => "Unauthorized"
  | 402 => "Payment Required"
  | 403 => "Forbidden"
  | 404 => "Not Found"
  | 405 => "Method Not Allowed"
  | 406 => "Not Acceptable"
  | 407 => "Proxy Authentication Required"
  | 408 => "Request Timeout"
  | 409 => "Conflict"
  | 410 => "Gone"
  | 411 => "Length Required"
  | 412 => "Precondition Failed"
  | 413 => "Payload Too Large"
  | 414 => "URI Too Long"
  | 415 => "Unsupported Media Type"
  | 416 => "Range Not Satisfiable"
  | 417 => "Expectation Failed"
  | 418 => "I'm a teapot"
  | 421 => "Misdirected Request"
  | 422 => "Unprocessable Entity"
  | 423 => "Locked"
  | 424 => "Failed Dependency"
  | 425 => "Too Early"
  | 426 => "Upgrade Required"
  | 428 => "Precondition Required"
  | 429 => "Too Many Requests"
  | 431 => "Request Header Fields Too Large"
  | 451 => "Unavailable For Legal Reasons"
  | 500 => "Internal Server Error"
  | 501 => "Not Implemented"
  | 502 => "Bad Gateway"
  | 503 => "Service Unavailable"
  | 504 => "Gateway Timeout"
  | 505 => "HTTP Version Not Supported"
  | 506 => "Variant Also Negotiates"
  | 507 => "Insufficient Storage"
  | 508 => "Loop Detected"
  | 510 => "Not Extended"
  | 511 => "Network Authentication Required"
  | _ => "<unknown status code>"

def TransportError.message : TransportError → String
  | .envelope origin e => e.message origin
  | .status url code =>
    "Failed to fetch " ++ url ++ ": HTTP " ++ toString code ++ " " ++ reasonPhrase code
  | .unreachable url => "Failed to fetch " ++ url ++ ": <detail>"
  | .unreadable path reason => "Failed to read " ++ path ++ ": " ++ reason.message
  | .invalidId id => "invalid endpoint id '" ++ id ++ "'"

def ConfigError.message : ConfigError → String
  | .unreadable path reason => "Failed to read " ++ path ++ ": " ++ reason.message
  | .noShareId => "no share id configured"
  | .emptyShareId => "share id must not be empty"
  | .invalidBase base e => "Invalid base URL " ++ base ++ ": " ++ e.message
  | .invalidTail tail e => "Invalid document path " ++ tail ++ ": " ++ e.message
  | .refusedDirectory dir => "refusing to clear output directory '" ++ dir ++ "'"

def Failure.message : Failure → String
  | .file _ => "I/O error: <detail>"
  | .settings => "YAML parsing error: <detail>"
  | .template _ => "Template engine error: <detail>"
  | .config e => "Configuration error: " ++ e.message
  | .transport e => "Transport error: " ++ e.message
  | .missingResponse m => m.message

end ApiTypings
