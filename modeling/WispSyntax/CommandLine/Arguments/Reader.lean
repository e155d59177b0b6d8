import WispSyntax.CommandLine.Refusal

/-!
Reading the words of a command line, one by one; the first that makes no sense is refused.
-/

namespace WispSyntax.CommandLine.Arguments

def giveFlag (a : Arguments) (flag : Flag) : Except Refusal Arguments :=
  if flag ∈ a.flags then
    .error (.repeated flag)
  else
    .ok { a with flags := a.flags ++ [flag] }

def give (a : Arguments) : Switch → Except Refusal Arguments
  | .flag flag => a.giveFlag flag
  | .help      => .error .help
  | .version   => .error .version

def giveFile (a : Arguments) (file : String) : Except Refusal Arguments :=
  match a.file with
  | none   => .ok { a with file := some file }
  | some _ => .error (.unexpected file)

-- A switch that is spelt out, given without its two dashes.
def readLong (a : Arguments) (name : List Char) : Except Refusal Arguments :=
  let word  := String.ofList ("--".toList ++ name.takeWhile (· ≠ '='))
  let value := (name.dropWhile (· ≠ '=')).drop 1
  match Switch.ofName? word with
  | some switch =>
    if '=' ∈ name then
      .error (.unwantedValue switch (String.ofList value) a)
    else
      a.give switch
  | none        => .error (.unknownOption word a)

-- Switches of one letter each behind a single dash.
def readShort (a : Arguments) : List Char → Except Refusal Arguments
  | []      => .ok a
  | c :: cs =>
    match Switch.ofLetter? c with
    | some switch => do readShort (← a.give switch) cs
    | none        => .error (.unknownOption (String.ofList ['-', c]) {})

-- Reads arguments one by one. After `--` none of them is a switch.
def readAll (a : Arguments) (plain : Bool) : List String → Except Refusal Arguments
  | []          => .ok a
  | arg :: rest =>
    if plain then do
      readAll (← a.giveFile arg) plain rest
    else
      match arg.toList with
      | ['-', '-']           => readAll a true rest
      | '-' :: '-' :: name   => do readAll (← a.readLong name) plain rest
      | '-' :: c :: cs       => do readAll (← a.readShort (c :: cs)) plain rest
      | _                    => do readAll (← a.giveFile arg) plain rest

-- The two ways to show a tree exclude each other; the one given first is named first.
def check (a : Arguments) : Except Refusal Arguments :=
  match a.flags.filter fun f => f = .tree || f = .tui with
  | flag :: other :: _ => .error (.conflict flag other a)
  | _                  => .ok a

def read (args : List String) : Except Refusal Arguments := do
  (← readAll {} false args).check

end WispSyntax.CommandLine.Arguments
