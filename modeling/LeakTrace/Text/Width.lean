import LeakTrace.Text.Property.EastAsianWide
import LeakTrace.Text.Property.Emoji
import LeakTrace.Text.Property.GraphemeExtend
import LeakTrace.Text.Property.Invisible
import LeakTrace.Text.Property.Joining

namespace LeakTrace.Text

def isCode (n : Nat) (c : Char) : Bool := c.toNat = n

/-- The character has no column of its own: a mark, or one that is not drawn. The filler of an
initial consonant, the Tifinagh joiner, which is drawn where it joins nothing, and the halfwidth
voicing marks, which are drawn beside the letter, have columns. -/
def isZeroWidth (c : Char) : Bool :=
  !isCode 0x115F c && !isCode 0x2D7F c && !within [(0xFF9E, 0xFF9F)] c &&
    (within graphemeExtend c || within defaultIgnorable c || within trailingJamo c ||
      within prepended c)

/-- The columns that a character takes by itself. -/
def charWidth (c : Char) : Nat :=
  if c.toNat ≤ 0xA0 then 1
  else if isCode 0x17A4 c then 2
  else if isCode 0x17D8 c then 3
  else if isZeroWidth c then 0
  else if within eastAsianWide c then 2
  else 1

def zeroWidthJoiner : Nat := 0x200D
def textSelector : Nat := 0xFE0E
def emojiSelector : Nat := 0xFE0F

def isRegionalIndicator (c : Char) : Bool := within [(0x1F1E6, 0x1F1FF)] c

def isEmojiModifier (c : Char) : Bool := within [(0x1F3FB, 0x1F3FF)] c

/-- The character is a pictograph that the selector of text style makes narrow. -/
def narrowsAsText (c : Char) : Bool :=
  within emojiStyled c && within emojiPresentation c && !within [(0x1F200, 0x1F2FF)] c

/-- A letter that may join the letter before it. -/
inductive Joint
  | hebrewLamed
  | bugineseYa
  /-- The Buginese vowel sign before a joined letter. -/
  | bugineseVowel
  | tifinagh
  /-- The Tifinagh joiner before a consonant. -/
  | tifinaghJoiner
  | lisuTone
  | oldTurkicOrkhon
  | khmerLetter
deriving DecidableEq, Repr

/-- A vowel sign that may complete the vowel sign right before it. -/
inductive VowelSign
  | kiratRaiE
  | kiratRaiAi
deriving DecidableEq, Repr

/-- The part of a pictograph that may belong with the character before it. -/
inductive Pictograph
  | modifier
  | regional
  /-- Two regional indicators or more. -/
  | regionals
  | whole
  /-- A pictograph behind a zero width joiner. -/
  | joined
  /-- A keycap sign before a joined pictograph. -/
  | keycap
  /-- Regional indicators before a joined pictograph: the first one, then an even or odd number. -/
  | joinedRegional
  | joinedEven
  | joinedOdd
  /-- Tag letters and tag digits, and the end of a tag, before a joined pictograph. -/
  | tags (letters digits : Nat)
deriving DecidableEq, Repr

/-- What the characters after a place begin with. -/
inductive Follow
  | other
  | alef
  /-- A letter, maybe behind a zero width joiner. -/
  | joint (letter : Joint) (joined : Bool)
  | vowel (sign : VowelSign)
  | pictograph (part : Pictograph)
deriving DecidableEq, Repr

/-- A choice of style that stands before what follows. -/
inductive Selector
  | text
  | emoji
deriving DecidableEq, Repr

structure Context where
  follow : Follow := .other
  selector : Option Selector := none
deriving DecidableEq, Repr

namespace Follow

/-- A selector does not part the character from the letter before it. -/
def bindsAcrossSelector : Follow → Bool
  | alef => true
  | joint .. => true
  | _ => false

/-- A pictograph behind a joiner, to which the character before a selector may belong. -/
def isJoinedPictograph : Follow → Bool
  | pictograph .joined => true
  | pictograph .keycap => true
  | _ => false

/-- What a character by itself begins. -/
def ofChar (c : Char) : Follow :=
  if within arabicAlef c then .alef
  else if isCode 0x5DC c then .joint .hebrewLamed false
  else if isCode 0x1A10 c then .joint .bugineseYa false
  else if within tifinaghConsonant c then .joint .tifinagh false
  else if within [(0xA4FC, 0xA4FD)] c then .joint .lisuTone false
  else if isCode 0x10C03 c then .joint .oldTurkicOrkhon false
  else if within coengLetter c then .joint .khmerLetter false
  else if isCode 0x16D67 c then .vowel .kiratRaiE
  else if isCode 0x16D68 c then .vowel .kiratRaiAi
  else if isRegionalIndicator c then .pictograph .regional
  else if isEmojiModifier c then .pictograph .modifier
  else if within emojiPresentation c then .pictograph .whole
  else .other

end Follow

namespace Context

/-- Puts a selector before what follows. -/
def select (ctx : Context) (s : Selector) : Context :=
  if ctx.follow.bindsAcrossSelector ∨ (s = .emoji ∧ ctx.follow.isJoinedPictograph) then
    { ctx with selector := some s }
  else { selector := some s }

/-- What follows, after a character that the selector does not apply to. -/
def unselect (ctx : Context) : Context :=
  if ctx.selector = none then ctx
  else { follow := if ctx.follow.bindsAcrossSelector then ctx.follow else .other }

end Context

/-- The columns that are added by a character before a letter that it may join, and what follows
then. Marks that are not drawn, and zero width joiners, do not part the two. -/
def joinLetter (letter : Joint) (joined : Bool) (c : Char) : Option (Int × Follow) :=
  if isCode zeroWidthJoiner c then some (0, .joint letter true)
  else if within ignorableMark c then some (0, .joint letter joined)
  else match letter with
  | .hebrewLamed => if joined && isCode 0x5D0 c then some (0, .other) else none
  | .bugineseYa =>
    if joined && isCode 0x1A17 c then some (0, .joint .bugineseVowel true) else none
  | .bugineseVowel => if isCode 0x1A15 c then some (0, .other) else none
  | .tifinagh =>
    if isCode 0x2D7F c then some (1, .joint .tifinaghJoiner true)
    else if joined && within tifinaghConsonant c then some (0, .other)
    else none
  | .tifinaghJoiner => if within tifinaghConsonant c then some (-1, .other) else none
  | .lisuTone => if within [(0xA4F8, 0xA4FB)] c then some (0, .other) else none
  | .oldTurkicOrkhon => if joined && isCode 0x10C32 c then some (0, .other) else none
  | .khmerLetter => if isCode 0x17D2 c then some (-1, .other) else none

/-- The same before a vowel sign, which nothing may part from the one that it completes. -/
def joinVowel (sign : VowelSign) (c : Char) : Option (Int × Follow) :=
  match sign with
  | .kiratRaiE =>
    if isCode 0x16D63 c then some (0, .other)
    else if isCode 0x16D67 c then some (0, .vowel .kiratRaiAi)
    else if isCode 0x16D68 c then some (1, .vowel .kiratRaiE)
    else if isCode 0x16D69 c then some (0, .other)
    else none
  | .kiratRaiAi => if isCode 0x16D63 c then some (0, .other) else none

/-- The same before an Arabic Alef, which joins a Lam across transparent characters. -/
def joinAlef (c : Char) : Option (Int × Follow) :=
  if within arabicLam c then some (0, .other)
  else if isZeroWidth c && !within nonTransparent c then some (0, .alef)
  else none

/-- Tags before a joined pictograph name a region by letters, or by letters and three digits. -/
def joinTags (letters digits : Nat) (c : Char) : Option (Int × Follow) :=
  if within [(0xE0061, 0xE007A)] c && digits = 0 && letters < 6 then
    some (0, .pictograph (.tags (letters + 1) 0))
  else if within [(0xE0030, 0xE0039)] c && letters ≤ 4 && digits < 3 then
    some (0, .pictograph (.tags letters (digits + 1)))
  else if isCode 0x1F3F4 c && (digits = 3 || (digits = 0 && 3 ≤ letters)) then
    some (0, .pictograph .whole)
  else none

/-- The columns that are added by a character before part of a pictograph, and what follows then. -/
def joinPictograph (part : Pictograph) (c : Char) : Option (Int × Follow) :=
  let isJoiner := isCode zeroWidthJoiner c
  match part with
  | .modifier =>
    if within emojiModifierBase c then some (0, .pictograph .whole)
    else if isJoiner then some (0, .pictograph .joined)
    else none
  | .regional => if isRegionalIndicator c then some (1, .pictograph .regionals) else none
  | .regionals =>
    if isRegionalIndicator c then some (1, .pictograph .regionals)
    else if isJoiner then some (0, .pictograph .joined)
    else none
  | .whole => if isJoiner then some (0, .pictograph .joined) else none
  | .joined =>
    if isCode 0x20E3 c then some (0, .pictograph .keycap)
    else if isRegionalIndicator c then some (1, .pictograph .joinedRegional)
    else if isEmojiModifier c then some (0, .pictograph .modifier)
    else if isCode 0xE007F c then some (0, .pictograph (.tags 0 0))
    else if within emojiPresentation c then some (0, .pictograph .whole)
    else none
  | .keycap => none
  | .joinedRegional =>
    if isRegionalIndicator c then some (-1, .pictograph .joinedEven) else none
  | .joinedEven =>
    if isRegionalIndicator c then some (3, .pictograph .joinedOdd)
    else if isJoiner then some (0, .pictograph .joined)
    else none
  | .joinedOdd =>
    if isRegionalIndicator c then some (-1, .pictograph .joinedEven)
    else if isJoiner then some (0, .pictograph .joined)
    else none
  | .tags letters digits => joinTags letters digits c

/-- The columns that are added by a character before what follows, if the two belong together. -/
def Follow.join (c : Char) : Follow → Option (Int × Follow)
  | .other => none
  | .alef => joinAlef c
  | .joint letter joined => joinLetter letter joined c
  | .vowel sign => joinVowel sign c
  | .pictograph part => joinPictograph part c

/-- The columns that are added by a character before what follows, and what follows then. -/
def Context.before (c : Char) (ctx : Context) : Int × Context :=
  if ctx.selector = some .emoji ∧ within emojiStyled c then
    (if ctx.follow.isJoinedPictograph then 0 else 2, { follow := .pictograph .whole })
  else if c.toNat ≤ 0xA0 then (1, {})
  else if ctx.selector = some .text ∧ narrowsAsText c then (1, {})
  else
    let ctx := ctx.unselect
    if isCode emojiSelector c then (0, ctx.select .emoji)
    else if isCode textSelector c then (0, ctx.select .text)
    else match ctx.follow.join c with
    | some (added, follow) => (added, { follow := follow })
    | none => (charWidth c, { follow := .ofChar c })

/-- The columns that a text takes, and what it begins with. Some characters share their columns with
what follows them, such as the letters of a ligature and the parts of a pictograph, so a text is
summed from its end. -/
def columns : List Char → Int × Context
  | [] => (0, {})
  | c :: cs =>
    let (rest, ctx) := columns cs
    let (added, ctx) := ctx.before c
    (rest + added, ctx)

/-- The columns that a text takes. -/
def width (cs : List Char) : Nat := (columns cs).1.toNat

end LeakTrace.Text
