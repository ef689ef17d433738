/-!
# Plain text

What is written to a place that is not a terminal is plain.  It has no control characters but white
space, and none of the sequences by which a terminal is told what to do.  Such a sequence begins
with the escape character and is one of these:

* two characters, perhaps with punctuation marks between them;
* a *control sequence*, from `[` on to a letter or one of the signs among the letters;
* a *command* to the system, from `]` on to the bell;
* a *string*, from `X`, `^` or `_` on, or from `P` and a header on, to the byte `0x9c`.

A sequence also ends where another one begins, where it is cancelled, and at the end of the text.
White space interrupts the sequences of the first two kinds.  It is kept, and so is the text after
it; the sequence goes on at the next control character, unless a character outside ASCII has come
before.

## Main definitions

* `Region` — what a place in a text belongs to.
* `plain s` — the text `s` without control characters and sequences.

## Main results

* `plain_plain` — plain text stays as it is.
-/

namespace ExprLang.Text

/-- What a place in a text belongs to. -/
inductive Region where
  /-- The text proper. -/
  | text
  /-- A sequence of which only the escape character has come. -/
  | escape
  /-- A sequence that has gone on with a punctuation mark. -/
  | marked
  /-- A control sequence. -/
  | control
  /-- A command to the system. -/
  | command
  /-- The header of a string, at its start. -/
  | header
  /-- The header of a string, in its numbers. -/
  | headerNumbers
  /-- The header of a string, after a punctuation mark. -/
  | headerMarked
  /-- The inside of a string. -/
  | string
  deriving DecidableEq, Repr, Inhabited

/-- The control characters that are white space. -/
def isLayout (c : Char) : Bool := c = '\t' || c = '\n' || c = '\x0c' || c = '\r'

/-- Whether plain text can hold a character. -/
def isPlain (c : Char) : Bool := isLayout c || (' ' ≤ c && c ≠ '\x7f')

/-- The byte that ends a string, wherever it comes in the encoding of a character. -/
def stringEnd : UInt8 := 0x9c

namespace Region

/-- Whether a character is kept. -/
def keeps : Region → Char → Bool
  | text, c => isPlain c
  | escape, c | marked, c | control, c => isLayout c
  | _, _ => false

/-- The region that decides whether a character is kept: after one that is kept this is the text,
whatever the character belongs to. -/
def asSeen (r : Region) (kept : Bool) : Region := if kept then text else r

/-- What comes after a character that is kept.  One outside ASCII ends a sequence that white space
has interrupted. -/
def afterKept (r : Region) (c : Char) : Region := if c ≤ '\x7f' then r else text

/-- What comes after a character that is left out, apart from those that mean the same
everywhere. -/
def goOn : Region → Char → Region
  | text, _ => text
  | escape, c =>
    if c = '[' then control
    else if c = ']' then command
    else if c = 'P' then header
    else if c = 'X' || c = '^' || c = '_' then string
    else if ' ' ≤ c && c ≤ '/' then marked
    else if '0' ≤ c && c ≤ '~' then text
    else escape
  | marked, c => if '0' ≤ c && c ≤ '~' then text else marked
  | control, c => if '@' ≤ c && c ≤ '~' then text else control
  | command, c => if c = '\x07' then text else command
  | header, c =>
    if ' ' ≤ c && c ≤ '/' then headerMarked
    else if '0' ≤ c && c ≤ '?' then headerNumbers
    else if '@' ≤ c && c ≤ '~' then string
    else header
  | headerNumbers, c =>
    if ' ' ≤ c && c ≤ '/' then headerMarked
    else if '<' ≤ c && c ≤ '~' then string
    else headerNumbers
  | headerMarked, c => if '0' ≤ c && c ≤ '~' then string else headerMarked
  | string, c => if (String.utf8EncodeChar c).contains stringEnd then text else string

/-- What comes after a character that is left out.  The escape character begins a sequence, and two
control characters cancel the one that has begun. -/
def after (r : Region) (c : Char) : Region :=
  if c = '\x1b' then escape
  else if c = '\x18' || c = '\x1a' then text
  else r.goOn c

end Region

/-- The plain part of a text whose first character belongs to `r`.  The flag tells whether the
character before it has been kept. -/
def plainFrom : Bool → Region → List Char → List Char
  | _, _, [] => []
  | kept, r, c :: cs =>
    if (r.asSeen kept).keeps c then c :: plainFrom true (r.afterKept c) cs
    else plainFrom false (r.after c) cs

/-- A text without control characters and sequences. -/
def plain (s : String) : String := String.ofList (plainFrom false .text s.toList)

/-! ### Plain text stays as it is -/

theorem Region.isPlain_of_keeps {r : Region} {c : Char} (h : r.keeps c = true) :
    isPlain c = true := by
  cases r <;> simp_all [keeps, isPlain]

/-- Only characters that plain text can hold are kept. -/
theorem isPlain_of_mem_plainFrom {kept : Bool} {r : Region} {c : Char} {cs : List Char}
    (h : c ∈ plainFrom kept r cs) : isPlain c = true := by
  induction cs generalizing kept r with
  | nil => simp [plainFrom] at h
  | cons d cs ih =>
    rw [plainFrom] at h
    split at h
    · next hd =>
      rcases List.mem_cons.mp h with rfl | h
      · exact Region.isPlain_of_keeps hd
      · exact ih h
    · exact ih h

/-- After a character that is kept, a text of such characters is kept as it is. -/
theorem plainFrom_true_eq_self {r : Region} {cs : List Char} (h : ∀ c ∈ cs, isPlain c = true) :
    plainFrom true r cs = cs := by
  induction cs generalizing r with
  | nil => rfl
  | cons c cs ih =>
    have hc : Region.text.keeps c = true := h c (by simp)
    have hcs := ih (r := r.afterKept c) fun d hd => h d (by simp [hd])
    simp [plainFrom, Region.asSeen, hc, hcs]

/-- A text of such characters is kept as it is. -/
theorem plainFrom_eq_self {cs : List Char} (h : ∀ c ∈ cs, isPlain c = true) :
    plainFrom false .text cs = cs := by
  cases cs with
  | nil => rfl
  | cons c cs =>
    have hc : Region.text.keeps c = true := h c (by simp)
    have hcs : plainFrom true (Region.text.afterKept c) cs = cs :=
      plainFrom_true_eq_self fun d hd => h d (by simp [hd])
    simp [plainFrom, Region.asSeen, hc, hcs]

/-- Plain text stays as it is. -/
theorem plain_plain (s : String) : plain (plain s) = plain s := by
  rw [plain, plain, String.toList_ofList, plainFrom_eq_self fun _ h => isPlain_of_mem_plainFrom h]

end ExprLang.Text
