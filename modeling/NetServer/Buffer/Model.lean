import NetServer.Basic
/-!
# `Buffer` (v1.7/src/Buffer.h, Buffer.cpp)

`readIndex_` and `writeIndex_` are `size_t`: sums and differences of sizes wrap. `data_` is the
vector's contents, read and written cell by cell through the checked block of `Lib.Memory`, so an
access outside it is the fault `outOfRange`.

| here | there |
| --- | --- |
| `Buffer.new`            | the constructor (`Buffer.cpp:5`) |
| `resize`                | `std::vector::resize`: zero-fills, or throws `length_error` above `max_size()` |
| `readFd`                | `readFd` (`:18`); the argument is what `::readv` does: `none` is `-1`, else the bytes the peer sent, of which the kernel takes what the two blocks hold |
| `peek`                  | the range `readIndexPtr()`, `readableSize()` as handed to `::write` |
-/

namespace NetServer
open Exec

structure Buffer where
  readIndex : Nat
  writeIndex : Nat
  data : Bytes
deriving DecidableEq, Repr

namespace Buffer

def Prepend : Nat := 8
def InitSize : Nat := 1024
/-- `char extrabuf[65536]` in `readFd`. -/
def extrabufSize : Nat := 65536

/-- `Buffer(size_t initSize)`. -/
def new (initSize : Nat) : Buffer := ⟨Prepend, Prepend, List.replicate initSize 0⟩

def size (b : Buffer) : Nat := b.data.length
def writableSize (b : Buffer) : Nat := subSize b.size b.writeIndex
def readableSize (b : Buffer) : Nat := subSize b.writeIndex b.readIndex
def preSize (b : Buffer) : Nat := b.readIndex

end Buffer

abbrev BufM := EStateM Fault Buffer

namespace Buffer

/-- Run code of the storage `data_`. -/
def onData {α : Type} (x : EStateM Fault Bytes α) : BufM α := zoom Buffer.data (fun d b => { b with data := d }) x

def resize (n : Nat) : BufM Unit := do
  if maxSize < n then
    throw .lengthError
  else
    modify fun b => { b with data := b.data.take n ++ List.replicate (n - b.data.length) 0 }

def hasWritten (len : Nat) : BufM Unit := do
  let b ← get
  assert (len ≤ b.writableSize)
  set { b with writeIndex := addSize b.writeIndex len }

def makeSpace (len : Nat) : BufM Unit := do
  let b ← get
  if addSize b.writableSize b.preSize < addSize len Prepend then
    resize (addSize b.writeIndex len)
  else
    let readable := b.readableSize
    onData (copyFwd .outOfRange (b.writeIndex - b.readIndex) b.readIndex Prepend)
    modify fun b => { b with readIndex := Prepend }
    modify fun b => { b with writeIndex := addSize b.readIndex readable }
    let b ← get
    assert (readable = b.readableSize)

def ensureWritableSize (len : Nat) : BufM Unit := do
  let b ← get
  if b.writableSize < len then
    makeSpace len

def append (data : Bytes) : BufM Unit := do
  ensureWritableSize data.length
  let b ← get
  onData (storeAll .outOfRange b.writeIndex data)
  hasWritten data.length

def readFd (r : Option Bytes) : BufM Int := do
  let b ← get
  let writable := b.writableSize
  match r with
  | none => pure (-1)
  | some sent =>
    -- `::readv` fills the writable area first, then `extrabuf`
    let bytes := sent.take (writable + extrabufSize)
    onData (storeAll .outOfRange b.writeIndex (bytes.take writable))
    if bytes.length ≤ writable then
      modify fun b => { b with writeIndex := addSize b.writeIndex bytes.length }
    else
      modify fun b => { b with writeIndex := b.size }
      append (bytes.drop writable)
    pure bytes.length

def retrieveAll : BufM Unit := modify fun b => { b with readIndex := Prepend, writeIndex := Prepend }

def retrieve (len : Nat) : BufM Unit := do
  let b ← get
  if len < b.readableSize then
    set { b with readIndex := addSize b.readIndex len }
  else
    retrieveAll

def peek : BufM Bytes := do
  let b ← get
  onData (loadAll .outOfRange b.readIndex b.readableSize)

def retrieveAsString (len : Nat) : BufM Bytes := do
  let b ← get
  assert (len ≤ b.readableSize)
  let result ← onData (loadAll .outOfRange b.readIndex len)
  retrieve len
  pure result

/-- `retrieveAsString()`. -/
def retrieveAllAsString : BufM Bytes := do
  let b ← get
  retrieveAsString b.readableSize

end Buffer

end NetServer
