import WispSyntax.Source.Feed

/-!
Lines of a stream of bytes. The stream arrives in reads, and a read can fail or bring nothing.
-/

namespace WispSyntax

-- The outcome of one read. A read without bytes says that, for now, nothing follows.
inductive Read
  | bytes (data : List UInt8)
  | failed (reason : String)
deriving DecidableEq, Repr

namespace Read

-- What can happen next in a stream.
inductive Signal
  | byte (b : UInt8)
  | pause
  | failed (reason : String)
deriving DecidableEq, Repr

def signals : Read → List Signal
  | bytes []      => [.pause]
  | bytes data    => data.map .byte
  | failed reason => [.failed reason]

-- The undecoded lines of a stream, and the reason if it breaks off.
structure Delivery where
  records : List (List UInt8) := []
  failure : Option String := none

def lineFeed : UInt8 := 10

-- Cuts a stream at line feeds. A pause ends the line begun so far, and the stream if none is begun;
-- a failure takes the line begun so far with it.
def deliver (begun : List UInt8) : List Signal → Delivery
  | []                   => if begun.isEmpty then {} else { records := [begun.reverse] }
  | .failed reason :: _  => { failure := some reason }
  | .pause :: rest       =>
    if begun.isEmpty then
      {}
    else
      let d := deliver [] rest
      { d with records := begun.reverse :: d.records }
  | .byte b :: rest      =>
    if b = lineFeed then
      let d := deliver [] rest
      { d with records := begun.reverse :: d.records }
    else
      deliver (b :: begun) rest

-- The text of a line loses all carriage returns at its end.
def dropReturns (text : List Char) : List Char :=
  (text.reverse.dropWhile (· = '\r')).reverse

def decode (record : List UInt8) : Option String :=
  (String.fromUTF8? ⟨record.toArray⟩).map fun text => String.ofList (dropReturns text.toList)

def undecodable : String :=
  "stream did not contain valid UTF-8"

-- Decodes record by record; one that is no UTF-8 breaks the stream off.
def decodeAll (first : Nat) (failure : Option String) : List (List UInt8) → Feed
  | []             => { lines := [], failure }
  | record :: rest =>
    match decode record with
    | none      => { lines := [], failure := some undecodable }
    | some text =>
      let f := decodeAll (first + 1) failure rest
      { f with lines := ⟨first, text⟩ :: f.lines }

end Read

def Feed.ofReads (reads : List Read) : Feed :=
  let d := Read.deliver [] (reads.flatMap Read.signals)
  Read.decodeAll 1 d.failure d.records

end WispSyntax
