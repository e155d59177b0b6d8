import WispSyntax.Source.Reads

/-!
Suppliers of lines that have a memory of their own. To tell whether there is a line, most have to
pull it, and then it is kept for the next pull. Whatever they keep, they hand out what their feed
tells, each line once and in its order (`LawfulSupplier`).
-/

namespace WispSyntax

-- What a pull brings if there is anything: a line, or the reason why reading broke off.
abbrev Pulled := Except String SourceLine

def Feed.pull : Feed → Option Pulled × Feed
  | ⟨line :: lines, failure⟩ => (some (.ok line), ⟨lines, failure⟩)
  | ⟨[], some reason⟩        => (some (.error reason), ⟨[], none⟩)
  | ⟨[], none⟩               => (none, ⟨[], none⟩)

-- The answer to a pull.
def handOut : Option Pulled → Except String (Option SourceLine)
  | none                 => .ok none
  | some (.ok line)      => .ok (some line)
  | some (.error reason) => .error reason

theorem Feed.advance_eq (f : Feed) :
    f.advance = ((handOut f.pull.1).mapError .unreadable, f.pull.2) := by
  rcases f with ⟨_ | _, _ | _⟩ <;> rfl

-- The feed that hands out something that has been pulled from another feed, and then the rest.
def Feed.behind (rest : Feed) : Option Pulled → Feed
  | none                 => rest
  | some (.ok line)      => { rest with lines := line :: rest.lines }
  | some (.error reason) => { lines := [], failure := some reason }

-- Lines can be pulled, but what has been pulled is not kept.
class LineSource (α : Type) where
  pull    : α → Option Pulled × α
  -- What is still to be pulled
  feed    : α → Feed
  -- Holds from the outset on
  IsValid : α → Prop

class LawfulSource (α : Type) [LineSource α] : Prop where
  pull_eq {a : α} (h : LineSource.IsValid a) :
    (LineSource.pull a).1 = (LineSource.feed a).pull.1
  feed_pull {a : α} (h : LineSource.IsValid a) :
    LineSource.feed (LineSource.pull a).2 = (LineSource.feed a).pull.2
  isValid_pull {a : α} (h : LineSource.IsValid a) : LineSource.IsValid (LineSource.pull a).2

-- One can ask for a line before it is pulled.
class LineSupplier (α : Type) where
  hasNext : α → Bool × α
  advance : α → Except String (Option SourceLine) × α
  feed    : α → Feed
  IsValid : α → Prop

section
open LineSupplier

class LawfulSupplier (α : Type) [LineSupplier α] : Prop where
  hasNext_eq {a : α} (h : IsValid a) : (hasNext a).1 = (feed a).hasNext
  feed_hasNext {a : α} (h : IsValid a) : feed (hasNext a).2 = feed a
  isValid_hasNext {a : α} (h : IsValid a) : IsValid (hasNext a).2
  advance_eq {a : α} (h : IsValid a) : (advance a).1 = handOut (feed a).pull.1
  feed_advance {a : α} (h : IsValid a) : feed (advance a).2 = (feed a).pull.2
  isValid_advance {a : α} (h : IsValid a) : IsValid (advance a).2

variable {α : Type} [LineSupplier α] [LawfulSupplier α] {a : α}

theorem exists_hasNext (h : IsValid a) :
    ∃ b, hasNext a = ((feed a).hasNext, b) ∧ feed b = feed a ∧ IsValid b :=
  ⟨_, Prod.ext (LawfulSupplier.hasNext_eq h) rfl, LawfulSupplier.feed_hasNext h,
    LawfulSupplier.isValid_hasNext h⟩

theorem exists_advance (h : IsValid a) :
    ∃ b, advance a = (handOut (feed a).pull.1, b) ∧ feed b = (feed a).pull.2 ∧ IsValid b :=
  ⟨_, Prod.ext (LawfulSupplier.advance_eq h) rfl, LawfulSupplier.feed_advance h,
    LawfulSupplier.isValid_advance h⟩

end

-- The lines of a text in memory.
structure TextLines where
  lines : List SourceLine

namespace TextLines

def ofText (text : String) : TextLines where
  lines := (Feed.ofText text).lines

instance : LineSupplier TextLines where
  hasNext t := (!t.lines.isEmpty, t)
  advance t := (.ok t.lines.head?, { lines := t.lines.tail })
  feed t    := { lines := t.lines }
  IsValid _ := True

instance : LawfulSupplier TextLines where
  hasNext_eq {t} _   := (Bool.or_false _).symm
  feed_hasNext _     := rfl
  isValid_hasNext _  := trivial
  advance_eq {t} _   := by rcases t with ⟨_ | _⟩ <;> rfl
  feed_advance {t} _ := by rcases t with ⟨_ | _⟩ <;> rfl
  isValid_advance _  := trivial

theorem feed_ofText (text : String) : LineSupplier.feed (ofText text) = Feed.ofText text :=
  rfl

end TextLines

-- A source and what has been pulled from it ahead of time.
structure Ahead (α : Type) where
  source : α
  peeked : Option Pulled := none

namespace Ahead

variable {α : Type} [LineSource α]

def look (a : Ahead α) : Ahead α :=
  match a.peeked with
  | some _ => a
  | none   => { source := (LineSource.pull a.source).2, peeked := (LineSource.pull a.source).1 }

def take (a : Ahead α) : Option Pulled × Ahead α :=
  match a.peeked with
  | some pulled => (some pulled, { source := a.source })
  | none        => ((LineSource.pull a.source).1, { source := (LineSource.pull a.source).2 })

instance : LineSupplier (Ahead α) where
  hasNext a := (a.look.peeked.isSome, a.look)
  advance a := (handOut a.take.1, a.take.2)
  feed a    := (LineSource.feed a.source).behind a.peeked
  -- A failure is the last thing that is pulled.
  IsValid a := LineSource.IsValid a.source ∧
    ∀ reason, a.peeked = some (.error reason) → LineSource.feed a.source = { lines := [] }

theorem behind_pull (f : Feed) : f.pull.2.behind f.pull.1 = f := by
  rcases f with ⟨_ | _, _ | _⟩ <;> rfl

theorem pull_behind {f : Feed} {pulled : Pulled}
    (last : ∀ reason, pulled = .error reason → f = { lines := [] }) :
    (f.behind (some pulled)).pull = (some pulled, f) := by
  cases pulled
  case ok           => rfl
  case error reason => rw [last reason rfl]; rfl

theorem isSome_pull (f : Feed) : f.pull.1.isSome = f.hasNext := by
  rcases f with ⟨_ | _, _ | _⟩ <;> rfl

theorem pull_error {f : Feed} {reason : String} (h : f.pull.1 = some (.error reason)) :
    f.pull.2 = { lines := [] } := by
  rcases f with ⟨_ | _, _ | _⟩ <;> cases h
  rfl

variable [LawfulSource α] {a : Ahead α}

theorem take_eq (h : LineSupplier.IsValid a) :
    a.take.1 = (LineSupplier.feed a).pull.1 ∧
      LineSupplier.feed a.take.2 = (LineSupplier.feed a).pull.2 ∧
      LineSupplier.IsValid a.take.2 := by
  obtain ⟨source, peeked⟩ := a
  obtain ⟨valid, last⟩ := h
  cases peeked
  case none =>
    exact ⟨LawfulSource.pull_eq valid, LawfulSource.feed_pull valid,
      LawfulSource.isValid_pull valid, by simp [take]⟩
  case some pulled =>
    have eq : ((LineSource.feed source).behind (some pulled)).pull = (some pulled, _) :=
      pull_behind fun reason h => last reason (congrArg some h)
    exact ⟨(congrArg Prod.fst eq).symm, (congrArg Prod.snd eq).symm, valid, by simp [take]⟩

theorem feed_look (h : LineSupplier.IsValid a) :
    LineSupplier.feed a.look = LineSupplier.feed a := by
  obtain ⟨source, peeked⟩ := a
  cases peeked
  case none =>
    change (LineSource.feed (LineSource.pull source).2).behind (LineSource.pull source).1 = _
    rw [LawfulSource.feed_pull h.1, LawfulSource.pull_eq h.1, behind_pull]
    rfl
  case some => rfl

theorem isSome_look (h : LineSupplier.IsValid a) :
    a.look.peeked.isSome = (LineSupplier.feed a).hasNext := by
  obtain ⟨source, _ | pulled⟩ := a
  case none =>
    change (LineSource.pull source).1.isSome = _
    rw [LawfulSource.pull_eq h.1, isSome_pull]
    rfl
  case some => rcases pulled with _ | _ <;> rfl

theorem isValid_look (h : LineSupplier.IsValid a) : LineSupplier.IsValid a.look := by
  obtain ⟨source, _ | pulled⟩ := a
  case none =>
    refine ⟨LawfulSource.isValid_pull h.1, fun reason failed => ?_⟩
    change LineSource.feed (LineSource.pull source).2 = _
    rw [LawfulSource.feed_pull h.1]
    exact pull_error ((LawfulSource.pull_eq h.1).symm.trans failed)
  case some => exact h

instance : LawfulSupplier (Ahead α) where
  hasNext_eq      := isSome_look
  feed_hasNext    := feed_look
  isValid_hasNext := isValid_look
  advance_eq h      := congrArg handOut (take_eq h).1
  feed_advance h    := (take_eq h).2.1
  isValid_advance h := (take_eq h).2.2

end Ahead

-- A stream. Once it has ended or failed, it is not asked again.
structure Reader where
  input    : List Read.Signal
  number   : Nat := 0
  finished : Bool := false

namespace Reader

-- The bytes up to a line feed, or none if the stream has ended.
def takeRecord (begun : List UInt8) :
    List Read.Signal → Except String (Option (List UInt8)) × List Read.Signal
  | []                     => (.ok (if begun.isEmpty then none else some begun.reverse), [])
  | .failed reason :: rest => (.error reason, rest)
  | .pause :: rest         => (.ok (if begun.isEmpty then none else some begun.reverse), rest)
  | .byte b :: rest        =>
    if b = Read.lineFeed then
      (.ok (some begun.reverse), rest)
    else
      takeRecord (b :: begun) rest

def readLine (r : Reader) : Option Pulled × Reader :=
  if r.finished then
    (none, r)
  else
    match takeRecord [] r.input with
    | (.error reason, input)     => (some (.error reason), { r with input, finished := true })
    | (.ok none, input)          => (none, { r with input, finished := true })
    | (.ok (some record), input) =>
      match Read.decode record with
      | none      => (some (.error Read.undecodable), { r with input, finished := true })
      | some text =>
        (some (.ok ⟨r.number + 1, text⟩), { r with input, number := r.number + 1 })

instance : LineSource Reader where
  pull      := readLine
  feed r    :=
    if r.finished then
      { lines := [] }
    else
      let d := Read.deliver [] r.input
      Read.decodeAll (r.number + 1) d.failure d.records
  IsValid _ := True

theorem deliver_eq (begun : List UInt8) (input : List Read.Signal) :
    Read.deliver begun input =
      match takeRecord begun input with
      | (.error reason, _)        => { failure := some reason }
      | (.ok none, _)             => {}
      | (.ok (some record), rest) =>
        { Read.deliver [] rest with records := record :: (Read.deliver [] rest).records } := by
  fun_induction takeRecord begun input
  case case1 begun           => rw [Read.deliver]; split <;> rfl
  case case2 begun reason _  => rfl
  case case3 begun rest      => rw [Read.deliver]; split <;> rfl
  case case4 begun rest      => rw [Read.deliver, if_pos rfl]
  case case5 begun b rest ne hi => rw [Read.deliver, if_neg ne, hi]

theorem readLine_eq (r : Reader) :
    (LineSource.pull r).1 = (LineSource.feed r).pull.1 ∧
      LineSource.feed (LineSource.pull r).2 = (LineSource.feed r).pull.2 := by
  obtain ⟨input, number, finished⟩ := r
  cases finished
  case true => exact ⟨rfl, rfl⟩
  case false =>
    simp only [LineSource.pull, LineSource.feed, readLine, deliver_eq [] input]
    rcases takeRecord [] input with ⟨_ | _ | record, rest⟩
    case error   => exact ⟨rfl, rfl⟩
    case ok.none => exact ⟨rfl, rfl⟩
    case ok.some =>
      cases decoded : Read.decode record <;> simp [decoded, Read.decodeAll, Feed.pull]

instance : LawfulSource Reader where
  pull_eq _      := (readLine_eq _).1
  feed_pull _    := (readLine_eq _).2
  isValid_pull _ := trivial

end Reader

abbrev ReaderLines := Ahead Reader

namespace ReaderLines

def ofReads (reads : List Read) : ReaderLines where
  source := { input := reads.flatMap Read.signals }

theorem feed_ofReads (reads : List Read) :
    LineSupplier.feed (ofReads reads) = Feed.ofReads reads :=
  rfl

theorem isValid_ofReads (reads : List Read) : LineSupplier.IsValid (ofReads reads) :=
  ⟨trivial, by simp [ofReads]⟩

end ReaderLines

-- The lines of a supplier that are neither blank nor a comment.
structure Kept (α : Type) where
  inner : α

namespace Kept

variable {α : Type} [LineSupplier α]

-- Goes through so many lines at most.
def skip (a : α) : Nat → Option Pulled × α
  | 0     => (none, a)
  | n + 1 =>
    match LineSupplier.hasNext a with
    | (false, a) => (none, a)
    | (true, a)  =>
      match LineSupplier.advance a with
      | (.ok (some line), a) =>
        if SourceLine.isSkippable line.text then skip a n else (some (.ok line), a)
      | (.ok none, a)        => (none, a)
      | (.error reason, a)   => (some (.error reason), a)

instance : LineSource (Kept α) where
  pull k    :=
    let (pulled, inner) := skip k.inner ((LineSupplier.feed k.inner).lines.length + 1)
    (pulled, { inner })
  feed k    := (LineSupplier.feed k.inner).withoutComments
  IsValid k := LineSupplier.IsValid k.inner

variable [LawfulSupplier α]

theorem skip_eq {a : α} (h : LineSupplier.IsValid a) {n : Nat}
    (enough : (LineSupplier.feed a).lines.length < n) :
    (skip a n).1 = (LineSupplier.feed a).withoutComments.pull.1 ∧
      (LineSupplier.feed (skip a n).2).withoutComments =
        (LineSupplier.feed a).withoutComments.pull.2 ∧
      LineSupplier.IsValid (skip a n).2 := by
  induction n generalizing a
  case zero => exact absurd enough (Nat.not_lt_zero _)
  case succ n hi =>
    obtain ⟨b, asked, feed_eq, valid⟩ := exists_hasNext h
    obtain ⟨c, advanced, feed_eq', valid'⟩ := exists_advance valid
    rw [skip, asked]
    rw [feed_eq] at advanced feed_eq'
    rcases here : LineSupplier.feed a with ⟨_ | ⟨l, lines⟩, _ | reason⟩ <;>
      rw [here] at advanced feed_eq' feed_eq enough
    case nil.none => exact ⟨rfl, congrArg Feed.withoutComments feed_eq, valid⟩
    case nil.some =>
      simp only [Feed.hasNext, List.isEmpty_nil, Bool.not_true, Option.isSome_some, Bool.or_true,
        advanced, handOut, Feed.pull]
      exact ⟨rfl, congrArg Feed.withoutComments feed_eq', valid'⟩
    all_goals
      simp only [Feed.hasNext, List.isEmpty_cons, Bool.not_false, Bool.true_or, advanced, handOut,
        Feed.pull]
      split
      case isTrue skippable =>
        rw [List.length_cons, Nat.succ_lt_succ_iff] at enough
        obtain ⟨line, rest, last⟩ := hi valid' (by rwa [feed_eq'])
        rw [line, rest, feed_eq']
        simp [Feed.withoutComments, Feed.pull, skippable, last]
      case isFalse kept =>
        simp only [feed_eq']
        simp [Feed.withoutComments, Feed.pull, kept, valid']

instance : LawfulSource (Kept α) where
  pull_eq h      := (skip_eq h (Nat.lt_succ_self _)).1
  feed_pull h    := (skip_eq h (Nat.lt_succ_self _)).2.1
  isValid_pull h := (skip_eq h (Nat.lt_succ_self _)).2.2

end Kept

abbrev CommentFilter (α : Type) := Ahead (Kept α)

-- So many filters around a supplier.
abbrev Filtered (α : Type) : Nat → Type
  | 0     => α
  | n + 1 => CommentFilter (Filtered α n)

namespace Filtered

variable {α : Type} [LineSupplier α]

instance instLineSupplier : (n : Nat) → LineSupplier (Filtered α n)
  | 0     => inferInstanceAs (LineSupplier α)
  | n + 1 =>
    have := instLineSupplier n
    inferInstanceAs (LineSupplier (CommentFilter (Filtered α n)))

instance instLawfulSupplier [LawfulSupplier α] : (n : Nat) → LawfulSupplier (Filtered α n)
  | 0     => inferInstanceAs (LawfulSupplier α)
  | n + 1 =>
    have := instLawfulSupplier n
    inferInstanceAs (LawfulSupplier (CommentFilter (Filtered α n)))

def wrap (a : α) : (n : Nat) → Filtered α n
  | 0     => a
  | n + 1 => { source := { inner := wrap a n } }

-- One filter is as good as many.
theorem feed_wrap (a : α) (filters : Nat) :
    LineSupplier.feed (wrap a filters) = (LineSupplier.feed a).filtered filters := by
  induction filters
  case zero            => rfl
  case succ filters hi =>
    change (LineSupplier.feed (wrap a filters)).withoutComments = _
    rw [hi]
    cases filters
    case zero => rfl
    case succ => exact Feed.withoutComments_withoutComments _

theorem isValid_wrap {a : α} (h : LineSupplier.IsValid a) :
    (n : Nat) → LineSupplier.IsValid (wrap a n)
  | 0     => h
  | n + 1 => ⟨isValid_wrap h n, by simp [wrap]⟩

end Filtered

end WispSyntax
