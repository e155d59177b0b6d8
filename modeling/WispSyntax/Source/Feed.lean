import WispSyntax.Diagnostic
import WispSyntax.Source.Line
import WispSyntax.Text.Lines

/-!
Lines that are pulled one at a time.
-/

namespace WispSyntax

-- What is still to be pulled: some lines and then, if reading broke off, the reason.
structure Feed where
  lines   : List SourceLine
  failure : Option String := none
deriving DecidableEq, Repr

namespace Feed

def ofText (text : String) : Feed where
  lines := SourceLine.enumerate 1 ((splitLines text.toList).map String.ofList)

-- Nothing is pulled by asking. A failure counts as something to pull.
def hasNext (f : Feed) : Bool :=
  !f.lines.isEmpty || f.failure.isSome

-- Pulls the next line, and the failure once after the last line.
def advance : Feed → Except Failure (Option SourceLine) × Feed
  | ⟨line :: lines, failure⟩ => (.ok (some line), ⟨lines, failure⟩)
  | ⟨[], some reason⟩        => (.error (.unreadable reason), ⟨[], none⟩)
  | ⟨[], none⟩               => (.ok none, ⟨[], none⟩)

-- Leaves out the lines that are blank or a comment; the others keep their numbers.
def withoutComments (f : Feed) : Feed :=
  { f with lines := f.lines.filter (!SourceLine.isSkippable ·.text) }

theorem withoutComments_withoutComments (f : Feed) :
    f.withoutComments.withoutComments = f.withoutComments := by
  simp [withoutComments]

-- A feed behind so many filters.
def filtered (f : Feed) : Nat → Feed
  | 0     => f
  | _ + 1 => f.withoutComments

end Feed
end WispSyntax
