/-
  Naitron.HttpResponse

  Response serialisation, `src/common/http.c`.

  Both formatters print the head into a `char header[1024]` and fail when it
  does not fit.  `none` is that failure; running out of arena memory is
  decided by the caller's environment.
-/

import Naitron.Bytes

namespace Naitron

/-- `ntc_http_status_text`. -/
def ntcHttpStatusText : Nat → Bytes
  | 200 => lit "OK"
  | 201 => lit "Created"
  | 204 => lit "No Content"
  | 400 => lit "Bad Request"
  | 401 => lit "Unauthorized"
  | 403 => lit "Forbidden"
  | 404 => lit "Not Found"
  | 405 => lit "Method Not Allowed"
  | 413 => lit "Payload Too Large"
  | 431 => lit "Request Header Fields Too Large"
  | 500 => lit "Internal Server Error"
  | 502 => lit "Bad Gateway"
  | 503 => lit "Service Unavailable"
  | 504 => lit "Gateway Timeout"
  | _ => lit "OK"

/-- Size of the `header` buffer of both formatters. -/
def httpHeadCap : Nat := 1024

/-- The status line and the `Server` line. -/
def statusLines (status : Nat) : Bytes :=
  lit "HTTP/1.1 " ++ decimal status ++ [chSpace] ++ ntcHttpStatusText status ++ crlf
    ++ lit "Server: naitron-c/0.0.1\r\n"

/-- The head printed by `ntc_http_format_response_ex`.  `%.*s` stops at a NUL
    of the content type. -/
def responseHead (status : Nat) (contentType extraHeaders : Bytes) (bodyLen : Nat) : Bytes :=
  statusLines status ++ lit "Content-Type: " ++ cstr contentType ++ crlf
    ++ lit "Content-Length: " ++ decimal bodyLen ++ crlf
    ++ lit "Connection: close\r\n" ++ extraHeaders ++ crlf

/-- `ntc_http_format_response_ex`. -/
def ntcHttpFormatResponseEx (status : Nat) (contentType extraHeaders body : Bytes) :
    Option Bytes :=
  let head := responseHead status contentType extraHeaders body.length
  if httpHeadCap ≤ head.length then none else some (head ++ body)

/-- `ntc_http_format_stream_head`. -/
def ntcHttpFormatStreamHead (status : Nat) (contentType : Bytes) (sse : Bool)
    (extraHeaders : Bytes) : Option Bytes :=
  let head :=
    if sse then
      statusLines status ++ lit "Content-Type: text/event-stream\r\n"
        ++ lit "Cache-Control: no-cache\r\n" ++ lit "Connection: close\r\n" ++ extraHeaders ++ crlf
    else
      statusLines status ++ lit "Content-Type: " ++ cstr contentType ++ crlf
        ++ lit "Transfer-Encoding: chunked\r\n" ++ lit "Connection: close\r\n"
        ++ extraHeaders ++ crlf
  if httpHeadCap ≤ head.length then none else some head

end Naitron
