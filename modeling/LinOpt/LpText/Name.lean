import LinOpt.Text.Blank

namespace LinOpt.LpText

def nameSymbols : List Char :=
  "_!#$%&()/,;?@`\x7b|\x7d~".toList

def isNameStart (c : Char) : Bool :=
  c.isAlpha || nameSymbols.contains c

def isNameChar (c : Char) : Bool :=
  isNameStart c || c.isDigit || c == '.'

/-- What a keyword must not be followed by: a name's character, or one of another alphabet whose
capital or small form is one. -/
def extendsKeyword (c : Char) : Bool :=
  isNameChar c || ['\u0130', '\u0131', '\u017f', '\u212a'].contains c

def isLetter (letter c : Char) : Bool :=
  c.toLower = letter || (letter = 'i' && c = '\u0130') || (letter = 's' && c = '\u017f')

def subjectWords : List String := ["subject to", "such that", "s.t.", "st"]

def boundWords : List String := ["bounds", "bound"]

def generalWords : List String := ["generals", "general", "gen"]

def binaryWords : List String := ["binary", "binaries", "bin"]

def endWords : List String := ["end"]

def freeWords : List String := ["free"]

def infinityWords : List String := ["infinity", "inf"]

def isKeyword (name : String) : Bool :=
  (["s.t.", "st"] ++ boundWords ++ generalWords ++ binaryWords ++ endWords ++ freeWords
    ++ infinityWords).contains (name.map Char.toLower)

def isSafeName (name : String) : Bool :=
  (match name.toList with
    | [] => false
    | c :: s => isNameStart c && s.all isNameChar) && !isKeyword name

/-- What is left after a keyword's letters; a space in it stands for one blank or more. -/
def afterWord : List Char → List Char → Option (List Char)
  | [], s => some s
  | letter :: word, s =>
    if letter = ' ' then match s with
      | c :: s => if Text.isBlank c then afterWord word (s.dropWhile Text.isBlank) else none
      | [] => none
    else match s with
      | c :: s => if isLetter letter c then afterWord word s else none
      | [] => none

def scanKeyword (words : List String) (s : List Char) : Option (String × List Char) :=
  words.findSome? fun word => do
    let rest ← afterWord word.toList s
    if (rest.head?.any extendsKeyword) then none else some (word, rest)

def scanName : List Char → Option (String × List Char)
  | [] => none
  | c :: s =>
    if isNameStart c then
      some (String.ofList (c :: s.takeWhile isNameChar), s.dropWhile isNameChar)
    else none

/-- An infinity and whether it is negative: a sign may stand before the word, and blanks between. -/
def scanInfinity (s : List Char) : Option (Bool × List Char) :=
  let (negative, s) := match s with
    | '+' :: s => (false, s)
    | '-' :: s => (true, s)
    | s => (false, s)
  (scanKeyword infinityWords (s.dropWhile Text.isBlank)).map fun (_, rest) => (negative, rest)

def scanBlanks (s : List Char) : Option (Unit × List Char) :=
  match s with
  | c :: s => if Text.isBlank c then some ((), s.dropWhile Text.isBlank) else none
  | [] => none

def scanComment (s : List Char) : Option (Unit × List Char) :=
  match s with
  | '\\' :: s => some ((), s.dropWhile (· != '\n'))
  | _ => none

def scanText (text : List Char) (s : List Char) : Option (Unit × List Char) :=
  if text.isPrefixOf s then some ((), s.drop text.length) else none

end LinOpt.LpText
