import AirCast.Center.JString

/-! # The lyric view

`LyricView`: the lines of a lyric file become a map from times to texts, which is
numbered in the order of the times.  `substring` cuts between UTF-16 units, so a
text here is its list of units. -/

set_option autoImplicit false

namespace AirCast.Music

abbrev Units := List UInt16

def units (text : String) : Units := text.toList.map fun c => UInt16.ofNat c.toNat

namespace Units

def replace (text : Units) (target : UInt16) (replacement : Units) : Units :=
  text.flatMap fun unit => if unit = target then replacement else [unit]

/-- `split` for a pattern of one unit: empty pieces at the end are dropped, and a text without
the separator is its own only piece. -/
def split (text : Units) (separator : UInt16) : List Units :=
  if separator ∈ text then (text.splitOn separator).rdropWhile (· = []) else [text]

/-- `substring`; `none` is the exception. -/
def substring (text : Units) (beginIndex endIndex : ℕ) : Option Units :=
  if beginIndex ≤ endIndex ∧ endIndex ≤ text.length then
    some ((text.take endIndex).drop beginIndex)
  else none

/-- `Integer.parseInt`: half a pair is no digit. -/
def parseInt (text : Units) : Option ℤ :=
  JString.integerValueOf (text.map fun unit => Char.ofNat unit.toNat)

end Units

def openBracket : UInt16 := 91
def closeBracket : UInt16 := 93
def colon : UInt16 := 58
def dot : UInt16 := 46
def at_ : UInt16 := 64

/-- `LyricObject`; its `endtime` is not used. -/
structure LyricObject where
  begintime : ℤ
  timeline : ℤ
  lrc : Units
  deriving DecidableEq

section reading

-- `twoDigits` is the platform's match of `\d{2}`, and `tips` the text of a resource
variable (twoDigits : Units → Bool) (tips : Units)

def timedata (piece : Units) : List Units :=
  ((piece.replace colon [dot]).replace dot [at_]).split at_

def currTime (m s ms : ℤ) : ℤ :=
  toInt (toInt (toInt (toInt (m * 60) + s) * 1000) + toInt (ms * 10))

/-- The time of a stamp, with `zero` in place of 0: `some none` where the piece is none, and
`none` the exception. -/
def stampTime (zero : ℤ) (piece : Units) : Option (Option ℤ) :=
  match timedata piece with
  | [] => none
  | [first, second, third] =>
      if twoDigits first then do
        let m ← first.parseInt
        let s ← second.parseInt
        let ms ← third.parseInt
        return some (if currTime m s ms = 0 then zero else currTime m s ms)
      else some none
  | _ => some none

def stampEntries (zero : ℤ) (lrc : Units) : List Units → Option (List LyricObject)
  | [] => some []
  | piece :: rest => do
      let time ← stampTime twoDigits zero piece
      let entries ← stampEntries zero lrc rest
      return (time.map fun time => ⟨time, 0, lrc⟩).toList ++ entries

def tagText (data : Units) : Option Units := data.substring 4 (data.length - 1)

def splitdata (data : Units) : List Units :=
  ((data.replace openBracket []).replace closeBracket [at_]).split at_

def stampsOnly (data : Units) : Bool :=
  ((data.replace openBracket []).replace closeBracket [at_]).getLast? = some at_

/-- The entries that one line puts, in order; `none` is an exception. -/
def lineEntries (data : Units) : Option (List LyricObject) :=
  if units "[ti" <+: data then do
    let title ← tagText data
    return [⟨0, 0, title⟩]
  else if units "[ar" <+: data then do
    let ar ← tagText data
    return [⟨1, 0, ar⟩]
  else if units "[al" <+: data then do
    let album ← tagText data
    return [⟨2, 0, album⟩, ⟨3, 0, tips⟩]
  else if stampsOnly data then stampEntries twoDigits 10 [] (splitdata data)
  else do
    let lrcContenet ← (splitdata data).getLast?
    stampEntries twoDigits 20 lrcContenet (splitdata data).dropLast

def fileEntries : List Units → Option (List LyricObject)
  | [] => some []
  | data :: rest => do
      let entries ← lineEntries twoDigits tips data
      let later ← fileEntries rest
      return entries ++ later

abbrev LyricMap := Std.TreeMap ℕ LyricObject compare

def readMap (entries : List LyricObject) : Std.TreeMap ℤ LyricObject compare :=
  entries.foldl (fun lrc_read item => lrc_read.insert item.begintime item) ∅

/-- The loop that numbers the values of `lrc_read`; `oldval` is the value before. -/
def number : List LyricObject → Option LyricObject → ℕ → LyricMap → LyricMap
  | [], _, _, lrc_map => lrc_map
  | val :: rest, none, i, lrc_map =>
      number rest (some val) i (if rest = [] then lrc_map.insert i val else lrc_map)
  | val :: rest, some oldval, i, lrc_map =>
      let item := { oldval with timeline := toInt (val.begintime - oldval.begintime) }
      let lrc_map := lrc_map.insert i item
      number rest (some val) (i + 1) (if rest = [] then lrc_map.insert (i + 1) val else lrc_map)

structure LyricView where
  lrc_map : LyricMap
  blLrc : Bool
  lrcIndex : ℕ

namespace LyricView

def new : LyricView := ⟨∅, false, 0⟩

/-- A file: `none` where there is none, else the lines that are read before its end or an
`IOException`. -/
abbrev LyricFile := Option (List Units)

/-- `read`: the view, and whether the call completes. -/
def read (file : LyricFile) (view : LyricView) : LyricView × Bool :=
  match file with
  | none => ({ view with blLrc := false }, true)
  | some lines =>
      match fileEntries twoDigits tips lines with
      | none => ({ view with blLrc := true }, false)
      | some entries =>
          let values := (readMap entries).toList.map Prod.snd
          ({ view with blLrc := true, lrc_map := number values none 0 ∅ }, true)

/-- The loop of `selectIndex`; `none` is the null pointer. -/
def countBefore (view : LyricView) (time : ℤ) : Option ℕ :=
  (List.range view.lrc_map.size).foldlM (fun index i =>
    (view.lrc_map[i]?).map fun temp => if temp.begintime < time then index + 1 else index) 0

/-- `selectIndex`; an index below zero becomes zero. -/
def selectIndex (time : ℤ) (view : LyricView) : Option (ℕ × LyricView) :=
  if view.blLrc then do
    let index ← view.countBefore time
    return (index - 1, { view with lrcIndex := index - 1 })
  else some (0, view)

def untilBreak (breaks : ℕ → Bool) : List ℕ → List ℕ
  | [] => []
  | i :: rest => i :: if breaks i then [] else untilBreak breaks rest

/-- The indices that `onDraw` looks up; `above` and `below` say which lines are outside the
view. -/
def onDraw (above below : ℕ → Bool) (view : LyricView) : List ℕ :=
  if view.blLrc then
    view.lrcIndex :: untilBreak above (List.range view.lrcIndex).reverse ++
      untilBreak below (List.range' (view.lrcIndex + 1) (view.lrc_map.size - (view.lrcIndex + 1)))
  else []

end LyricView

end reading

end AirCast.Music
