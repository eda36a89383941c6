/-!
# Codes

A code is the short text that stands for a selector name.  It is computed from a counter alone:
one letter for the first 26 values, two letters below 676, three letters below 17576.  Letters
that spell the name of an HTML element get the last decimal digit of the counter appended, so
that no code made here is an element name.
-/

namespace SelectorMangling.Code

def alphabetSize : Nat := 26

/-- Number of counter values that have a code. -/
def capacity : Nat := alphabetSize * alphabetSize * alphabetSize

/-- The names of HTML elements, which no code may be. -/
def builtinTags : List String :=
  ["a", "abbr", "acronym", "address", "area", "article", "aside", "audio", "b", "base", "bdi",
   "bdo", "big", "blockquote", "body", "br", "button", "canvas", "caption", "center", "cite",
   "code", "col", "colgroup", "data", "datalist", "dd", "del", "details", "dfn", "dialog", "dir",
   "div", "dl", "dt", "em", "embed", "fencedframe", "fieldset", "figcaption", "figure", "font",
   "footer", "form", "frame", "frameset", "h1", "h2", "h3", "h4", "h5", "h6", "head", "header",
   "hgroup", "hr", "html", "i", "iframe", "img", "input", "ins", "kbd", "label", "legend", "li",
   "link", "main", "map", "mark", "marquee", "menu", "meta", "meter", "nav", "nobr", "noembed",
   "noframes", "noscript", "object", "ol", "optgroup", "option", "output", "p", "param",
   "picture", "plaintext", "portal", "pre", "progress", "q", "rb", "rp", "rt", "rtc", "ruby", "s",
   "samp", "script", "search", "section", "select", "slot", "small", "source", "span", "strike",
   "strong", "style", "sub", "summary", "sup", "table", "tbody", "td", "template", "textarea",
   "tfoot", "th", "thead", "time", "title", "tr", "track", "tt", "u", "ul", "var", "video", "wbr",
   "xmp"]

def isBuiltinTag (text : String) : Bool := builtinTags.contains text

/-- The letter at a place of the alphabet, counted from zero. -/
def letter (place : Nat) : Char := Char.ofNat ('a'.toNat + place)

/-- The places of the letters for a counter value.  In two and three letters the first one counts
the whole alphabets that are used up, so it starts again at the first letter. -/
def places? (counter : Nat) : Option (List Nat) :=
  let squared := alphabetSize * alphabetSize
  if counter < alphabetSize then
    some [counter]
  else if counter < squared then
    some [counter / alphabetSize - 1, counter % alphabetSize]
  else if counter < capacity then
    some [counter / squared - 1, counter / alphabetSize % alphabetSize, counter % alphabetSize]
  else
    none

def letters? (counter : Nat) : Option String :=
  (places? counter).map fun places => String.ofList (places.map letter)

/-- There is no code for this counter value. -/
structure Exhausted where
  counter : Nat
deriving DecidableEq, Repr

def Exhausted.message (cause : Exhausted) : String :=
  s!"no code left for selector #{cause.counter} (capacity is {capacity})"

def ofCounter (counter : Nat) : Except Exhausted String :=
  match letters? counter with
  | none => .error ⟨counter⟩
  | some letters =>
    if isBuiltinTag letters then .ok (letters ++ Nat.repr (counter % 10)) else .ok letters

theorem letters?_eq_none_iff {counter : Nat} :
    letters? counter = none ↔ capacity ≤ counter := by
  have hsizes : alphabetSize * alphabetSize ≤ capacity ∧ alphabetSize ≤ capacity := by decide
  simp only [letters?, places?, Option.map_eq_none_iff]
  split
  · simp; omega
  · split
    · simp; omega
    · split <;> simp <;> omega

theorem lt_capacity_of_ofCounter {counter : Nat} {code : String}
    (hcode : ofCounter counter = .ok code) : counter < capacity := by
  rcases Nat.lt_or_ge counter capacity with hlt | hge
  · exact hlt
  · simp [ofCounter, letters?_eq_none_iff.mpr hge] at hcode

end SelectorMangling.Code
