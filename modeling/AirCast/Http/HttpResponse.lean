import AirCast.CString
import AirCast.Lib.MemoryBlock

/-! # The reply buffer of http_response.c

Allocations succeed and set the capacity they are asked for.  A call that the C
code does not survive (a failed assertion, an `int` overflow, a copy past the
end of a buffer, the use of a NULL pointer) ends in a `Fault`. -/

set_option autoImplicit false

namespace AirCast.Http

inductive Fault where
  | assertion
  | signedOverflow
  | outOfBounds
  | nullPointer
  /-- a variable is read that was never written -/
  | uninitialised
  deriving DecidableEq, Repr

def intMax : ℤ := 2 ^ 31 - 1

structure HttpResponse where
  complete : Bool
  disconnect : Bool
  data : MemoryBlock UInt8
  dataSize : ℤ
  dataLength : ℤ
  flag : ℤ

/-- The loop that doubles `newdatasize` until it covers `needed`. -/
def doubleSize (needed newdatasize : ℤ) : ℕ → Except Fault ℤ
  | 0 => .error .signedOverflow
  | doublings + 1 =>
      if newdatasize < needed then
        if intMax < newdatasize * 2 then .error .signedOverflow
        else doubleSize needed (newdatasize * 2) doublings
      else .ok newdatasize

/-- `http_response_add_data`.  A positive `int` can be doubled at most thirty
times, so the loop has its answer before the bound on its rounds. -/
def httpResponseAddData (response : HttpResponse) (data : Bytes) (datalen : ℤ) :
    Except Fault HttpResponse :=
  if datalen ≤ 0 then .error .assertion
  else if intMax < response.dataSize + datalen then .error .signedOverflow
  else
    match doubleSize (response.dataSize + datalen) response.dataSize 32 with
    | .error fault => .error fault
    | .ok newdatasize =>
        let block :=
          if newdatasize = response.dataSize then response.data
          else response.data.resize newdatasize.toNat
        match block.store response.dataLength.toNat (data.take datalen.toNat) with
        | none => .error .outOfBounds
        | some block =>
            .ok { response with data := block, dataLength := response.dataLength + datalen }

/-- `http_response_add_data` of a C string; `strlen` is converted to `int`. -/
def addString (response : HttpResponse) (text : CString) : Except Fault HttpResponse :=
  httpResponseAddData response text.chars (toInt text.strlen)

def decimal (n : ℕ) : CString := CString.lit (toString n)

def freshResponse : HttpResponse :=
  { complete := false
    disconnect := false
    data := .alloc 1024
    dataSize := 1024
    dataLength := 0
    flag := 1 }

def httpResponseInit (protocol : CString) (code : ℤ) (message : CString) :
    Except Fault HttpResponse :=
  if code < 100 ∨ 1000 ≤ code then .error .assertion
  else do
    let response ← addString freshResponse protocol
    let response ← addString response (.lit " ")
    let response ← addString response (decimal code.toNat)
    let response ← addString response (.lit " ")
    let response ← addString response message
    addString response (.lit "\r\n")

def httpResponseAddHeader (response : HttpResponse) (name value : CString) :
    Except Fault HttpResponse := do
  let response ← addString response name
  let response ← addString response (.lit ": ")
  let response ← addString response value
  addString response (.lit "\r\n")

/-- The calls of `http_response_finish` before it sets `complete`. -/
def finishData (response : HttpResponse) (data : Bytes) (datalen : ℤ) :
    Except Fault HttpResponse :=
  if 0 < datalen then do
    let response ← addString response (.lit "Content-Length")
    let response ← addString response (.lit ": ")
    let response ← addString response (decimal datalen.toNat)
    let response ← addString response (.lit "\r\n\r\n")
    httpResponseAddData response data datalen
  else addString response (.lit "\r\n")

/-- `http_response_finish`; an empty body stands for `datalen == 0`. -/
def httpResponseFinish (response : HttpResponse) (data : Bytes) : Except Fault HttpResponse :=
  if toInt data.length < 0 then .error .assertion
  else do
    let response ← finishData response data (toInt data.length)
    return { response with complete := true }

def httpResponseGetData (response : HttpResponse) : Except Fault Bytes :=
  if response.complete = false then .error .assertion
  else
    match response.data.load response.dataLength.toNat with
    | none => .error .outOfBounds
    | some bytes => .ok bytes

end AirCast.Http
