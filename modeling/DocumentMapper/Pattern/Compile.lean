import DocumentMapper.Error

/-!
# Compiling a pattern

A pattern given by the caller is checked against the grammar of regular expressions before it is
used: groups and sets are closed, a quantifier follows something that can repeat, references lead
to closed groups, flags are set where they may be, and a look-behind has one width. Flags set at
the start of the pattern become flags of the whole.
-/

namespace DocumentMapper.Pattern

/-- A character, or the character after a backslash. -/
inductive Token where
  | plain (c : Char)
  | escaped (c : Char)
  deriving DecidableEq

/-- The tokens of a source, unless it ends in a lone backslash. -/
def tokens? : List Char → Option (List Token)
  | [] => some []
  | '\\' :: c :: rest => (tokens? rest).map (.escaped c :: ·)
  | ['\\'] => none
  | c :: rest => (tokens? rest).map (.plain c :: ·)

/-- The fewest and the most characters that a part can match; none means without bound. -/
structure Width where
  least : Nat
  most : Option Nat
  deriving DecidableEq

namespace Width

def zero : Width := ⟨0, some 0⟩
def one : Width := ⟨1, some 1⟩

def add (a b : Width) : Width :=
  ⟨a.least + b.least, a.most.bind fun m => b.most.map (m + ·)⟩

/-- The width of one part or the other. -/
def or (a b : Width) : Width :=
  ⟨min a.least b.least, a.most.bind fun m => b.most.map (max m)⟩

def repeated (w : Width) (least : Nat) (most : Option Nat) : Width :=
  ⟨w.least * least,
    if w.most = some 0 then some 0 else w.most.bind fun m => most.map (m * ·)⟩

end Width

/-- The end of a sequence as quantifiers see it. -/
inductive Last where
  | nothing
  | anchor
  | quantified
  | item (w : Width)

/-- What has been read of a pattern. -/
structure Progress where
  rest : List Token
  /-- Widths of the groups so far, none for a group that is open. -/
  groups : List (Option Width)
  names : List (String × Nat)
  /-- Groups that were open or closed when the outermost look-behind began. -/
  lookBehind : Option Nat
  /-- Groups that conditions asked for by number. -/
  asked : List Nat
  flags : Pattern

abbrev Scan := StateT Progress Option

namespace Scan

def peek? : Scan (Option Token) := do
  return (← get).rest.head?

def next? : Scan (Option Token) := do
  let s ← get
  set { s with rest := s.rest.drop 1 }
  return s.rest.head?

def next : Scan Token := do
  match ← next? with
  | some t => return t
  | none => failure

/-- Takes a character if it comes next. -/
def accept (c : Char) : Scan Bool := do
  if (← peek?) = some (.plain c) then
    let _ ← next
    return true
  else return false

def expect (c : Char) : Scan Unit := do
  if !(← accept c) then failure

/-- Up to `most` characters at the front that satisfy `p`. -/
def takeUpTo (most : Nat) (p : Char → Bool) : Scan (List Char) := do
  let s ← get
  let taken := ((s.rest.take most).takeWhile fun
    | .plain c => p c
    | .escaped _ => false).filterMap fun
      | .plain c => some c
      | .escaped _ => none
  set { s with rest := s.rest.drop taken.length }
  return taken

def takeWhile (p : Char → Bool) : Scan (List Char) := do
  takeUpTo (← get).rest.length p

/-- The text up to a closing character, which is taken off and must be there. -/
def takeName (close : Char) : Scan (List Char) := do
  let s ← get
  let name := s.rest.takeWhile (· != Token.plain close)
  set { s with rest := s.rest.drop name.length }
  expect close
  if name.isEmpty then failure
  return name.flatMap fun
    | .plain c => [c]
    | .escaped c => ['\\', c]

end Scan

open Scan

def isHexDigit (c : Char) : Bool :=
  c.isDigit || ('a' ≤ c && c ≤ 'f') || ('A' ≤ c && c ≤ 'F')

def isOctalDigit (c : Char) : Bool :=
  '0' ≤ c && c ≤ '7'

/-- The number written by digits of a base. -/
def numberOf (base : Nat) (digits : List Char) : Nat :=
  digits.foldl (fun n c => base * n + (Json.hexValue? c).getD 0) 0

/-- Exactly `count` hexadecimal digits. -/
def hexEscape (count : Nat) : Scan Nat := do
  let digits ← takeUpTo count isHexDigit
  if digits.length = count ∧ numberOf 16 digits ≤ 0x10ffff then return numberOf 16 digits
  else failure

def namedEscape : Scan Unit := do
  expect '\x7b'
  let _ ← takeName '\x7d'

/-- An octal escape whose first digit has been read. -/
def octalEscape (first : Char) : Scan Nat := do
  let n := numberOf 8 (first :: (← takeUpTo 2 isOctalDigit))
  if n ≤ 0o377 then return n else failure

/-- The code of an escape that stands for one character in and outside sets, if it is one. -/
def charEscape (c : Char) : Scan (Option Nat) := do
  match c with
  | 'a' => return some 7
  | 'f' => return some 12
  | 'n' => return some 10
  | 'r' => return some 13
  | 't' => return some 9
  | 'v' => return some 11
  | 'x' => return some (← hexEscape 2)
  | 'u' => return some (← hexEscape 4)
  | 'U' => return some (← hexEscape 8)
  | 'N' =>
    namedEscape
    return some 0
  | _ => if c.isAlpha || c.isDigit then return none else return some c.toNat

def isCategory (c : Char) : Bool :=
  "dDsSwW".toList.contains c

/-- The code of an escape in a set, none for a class of characters. -/
def setEscape (c : Char) : Scan (Option Nat) := do
  if isCategory c then return none
  else if c = 'b' then return some 8
  else if isOctalDigit c then return some (← octalEscape c)
  else
    match ← charEscape c with
    | some n => return some n
    | none => failure

/-- A group may be referred to once it is closed, in a look-behind only from before it. -/
def reference (group : Nat) : Scan Width := do
  let s ← get
  match s.groups[group - 1]? with
  | some (some w) =>
    match s.lookBehind with
    | some known => if group < known then return w else failure
    | none => return w
  | _ => failure

/-- An escape outside sets. -/
def escapeItem (c : Char) : Scan Last := do
  if "AbBZ".toList.contains c then return .anchor
  else if isCategory c then return .item .one
  else if c = '0' then
    let _ ← octalEscape c
    return .item .one
  else if c.isDigit then
    let second ← takeUpTo 1 Char.isDigit
    let octal := (c :: second).all isOctalDigit && !second.isEmpty
    let third ← if octal then takeUpTo 1 isOctalDigit else pure []
    if third.isEmpty then return .item (← reference (numberOf 10 (c :: second)))
    else if numberOf 8 (c :: second ++ third) ≤ 0o377 then return .item .one
    else failure
  else
    match ← charEscape c with
    | some _ => return .item .one
    | none => failure

/-- One member of a set, none for a class of characters. -/
def setMember (t : Token) : Scan (Option Nat) :=
  match t with
  | .plain c => return some c.toNat
  | .escaped c => setEscape c

/-- The rest of a set; a closing bracket is a member when it comes first. -/
def setRest : Nat → Bool → Scan Unit
  | 0, _ => failure
  | fuel + 1, started => do
    let t ← next
    if t = .plain ']' ∧ started then return
    let low ← setMember t
    if ← accept '-' then
      let t ← next
      if t = .plain ']' then return
      match low, ← setMember t with
      | some low, some high => if high < low then failure else setRest fuel true
      | _, _ => failure
    else setRest fuel true

/-- Bounds in braces, or none when the braces are no quantifier. -/
def braces : Scan (Option (Nat × Option Nat)) := do
  let start ← get
  if (← peek?) = some (.plain '\x7d') then return none
  let low ← takeWhile Char.isDigit
  let high ← if ← accept ',' then takeWhile Char.isDigit else pure low
  if ← accept '\x7d' then
    let least := numberOf 10 low
    let most := numberOf 10 high
    if 4294967295 ≤ least ∨ 4294967295 ≤ most then failure
    else if high.isEmpty then return some (least, none)
    else if most < least then failure
    else return some (least, some most)
  else
    set start
    return none

/-- The width after a quantifier, which must follow something that is not a quantifier. -/
def quantify (last : Last) (bounds : Nat × Option Nat) : Scan Width := do
  match last with
  | .item w =>
    if !(← accept '?') then
      let _ ← accept '+'
    return w.repeated bounds.1 bounds.2
  | _ => failure

def isNameStart (c : Char) : Bool :=
  c.isAlpha || c == '_' || 0x80 ≤ c.toNat

def isName (cs : List Char) : Bool :=
  match cs with
  | c :: rest => isNameStart c && rest.all fun c => isNameStart c || c.isDigit
  | [] => false

def openGroup (name : Option (List Char)) : Scan Nat := do
  let s ← get
  let group := s.groups.length
  let names ← match name with
    | none => pure s.names
    | some name =>
      let name := String.ofList name
      if (s.names.lookup name).isSome then failure else pure ((name, group + 1) :: s.names)
  set { s with groups := s.groups ++ [none], names }
  return group

def closeGroup (group : Nat) (w : Width) : Scan Unit :=
  modify fun s => { s with groups := s.groups.set group (some w) }

def isFlag (c : Char) : Bool :=
  "imsxau".toList.contains c

/-- Sets one flag of a pattern. -/
def withFlag (p : Pattern) : Char → Pattern
  | 'i' => { p with ignoreCase := true }
  | 'm' => { p with multiline := true }
  | 's' => { p with dotAll := true }
  | 'x' => { p with verbose := true }
  | 'a' => { p with ascii := true }
  | _ => p

/-- What a run of flags in a group does. -/
inductive FlagUse where
  /-- The flags hold for the whole pattern. -/
  | whole (on : List Char)
  /-- The flags hold, and others do not, in the group that follows. -/
  | group (on off : List Char)

def flagUse (first : Char) : Scan FlagUse := do
  let more ← takeWhile isFlag
  let on := if first = '-' then [] else first :: more
  if on.contains 'a' && on.contains 'u' then failure
  let mark ← if first = '-' then pure (.plain '-') else next
  match mark with
  | .plain ')' => return .whole on
  | .plain ':' => return .group on []
  | .plain '-' =>
    let off ← if first = '-' then pure more else takeWhile isFlag
    expect ':'
    if off.isEmpty || off.any fun c => c == 'a' || c == 'u' || on.contains c then failure
    return .group on off
  | _ => failure

/-- What a group with a question mark adds to a sequence. -/
inductive Extension where
  /-- Nothing; the pattern goes on with blanks ignored or not. -/
  | skip (verbose : Bool)
  | part (item : Last)

def emptyYet : Last → Bool
  | .nothing => true
  | _ => false

mutual

/-- Sequences with bars between them; `top` outside all groups. -/
def alternatives : Nat → Bool → Bool → Scan Width
  | 0, _, _ => failure
  | fuel + 1, verbose, top => do
    let w ← sequence fuel verbose top .zero .nothing
    moreAlternatives fuel verbose top w

def moreAlternatives : Nat → Bool → Bool → Width → Scan Width
  | 0, _, _, _ => failure
  | fuel + 1, verbose, top, w => do
    if ← accept '|' then
      let verbose ← if top then pure (← get).flags.verbose else pure verbose
      let other ← sequence fuel verbose false .zero .nothing
      moreAlternatives fuel verbose top (w.or other)
    else return w

/-- A sequence; `before` is the width of all but its last item, and flags for the whole pattern
may come while `first` holds and nothing has been read. -/
def sequence : Nat → Bool → Bool → Width → Last → Scan Width
  | 0, _, _, _, _ => failure
  | fuel + 1, verbose, first, before, last => do
    let width := match last with
      | .item w => before.add w
      | _ => before
    let follow (item : Last) := sequence fuel verbose first width item
    match ← peek? with
    | none | some (.plain '|') | some (.plain ')') => return width
    | some (.escaped c) =>
      let _ ← next
      follow (← escapeItem c)
    | some (.plain c) =>
      let _ ← next
      if verbose && (c == ' ' || (9 ≤ c.toNat && c.toNat ≤ 13)) then
        sequence fuel verbose first before last
      else if verbose && c == '#' then
        let s ← get
        set { s with rest := (s.rest.dropWhile (· != Token.plain '\n')).drop 1 }
        sequence fuel verbose first before last
      else if c = '[' then
        let _ ← accept '^'
        setRest fuel false
        follow (.item .one)
      else if c = '^' ∨ c = '$' then follow .anchor
      else if c = '*' then
        sequence fuel verbose first (before.add (← quantify last (0, none))) .quantified
      else if c = '+' then
        sequence fuel verbose first (before.add (← quantify last (1, none))) .quantified
      else if c = '?' then
        sequence fuel verbose first (before.add (← quantify last (0, some 1))) .quantified
      else if c = '\x7b' then
        match ← braces with
        | some bounds =>
          sequence fuel verbose first (before.add (← quantify last bounds)) .quantified
        | none => follow (.item .one)
      else if c = '(' then
        if ← accept '?' then
          match ← extension fuel verbose (first && emptyYet last) with
          | .skip verbose => sequence fuel verbose first before last
          | .part item => follow item
        else
          let w ← groupBody fuel verbose none
          follow (.item w)
      else follow (.item .one)

/-- A capturing group after its opening. -/
def groupBody : Nat → Bool → Option (List Char) → Scan Width
  | 0, _, _ => failure
  | fuel + 1, verbose, name => do
    let group ← openGroup name
    let w ← alternatives fuel verbose false
    expect ')'
    closeGroup group w
    return w

/-- A group that starts with a question mark, after that mark. -/
def extension : Nat → Bool → Bool → Scan Extension
  | 0, _, _ => failure
  | fuel + 1, verbose, first => do
    match ← next with
    | .plain 'P' =>
      if ← accept '<' then
        let name ← takeName '>'
        if !isName name then failure
        return .part (.item (← groupBody fuel verbose (some name)))
      else if ← accept '=' then
        let name ← takeName ')'
        match (← get).names.lookup (String.ofList name) with
        | some group => return .part (.item (← reference group))
        | none => failure
      else failure
    | .plain ':' | .plain '>' =>
      let w ← alternatives fuel verbose false
      expect ')'
      return .part (.item w)
    | .plain '#' =>
      let s ← get
      set { s with rest := s.rest.dropWhile (· != Token.plain ')') }
      expect ')'
      return .skip verbose
    | .plain '=' | .plain '!' =>
      let _ ← alternatives fuel verbose false
      expect ')'
      return .part (.item .zero)
    | .plain '<' =>
      let t ← next
      if t != Token.plain '=' && t != Token.plain '!' then failure
      let outer := (← get).lookBehind
      modify fun s => { s with lookBehind := outer.or (some (s.groups.length + 1)) }
      let w ← alternatives fuel verbose false
      modify fun s => { s with lookBehind := outer }
      expect ')'
      if w.most = some w.least then return .part (.item .zero) else failure
    | .plain '(' =>
      let name ← takeName ')'
      let s ← get
      let group ← if isName name then
          match s.names.lookup (String.ofList name) with
          | some group => pure group
          | none => failure
        else if name.all Char.isDigit && numberOf 10 name != 0 then pure (numberOf 10 name)
        else failure
      if s.lookBehind.isSome then
        let _ ← reference group
      modify fun s => { s with asked := group :: s.asked }
      let yes ← sequence fuel verbose false .zero .nothing
      let no ← if ← accept '|' then
          let w ← sequence fuel verbose false .zero .nothing
          if (← peek?) = some (.plain '|') then failure else pure w
        else pure .zero
      expect ')'
      return .part (.item (yes.or no))
    | .plain c =>
      if isFlag c || c == '-' then
        match ← flagUse c with
        | .whole on =>
          if !first then failure
          modify fun s => { s with flags := on.foldl withFlag s.flags }
          return .skip (← get).flags.verbose
        | .group on off =>
          let w ← alternatives fuel ((verbose || on.contains 'x') && !off.contains 'x') false
          expect ')'
          return .part (.item w)
      else failure
    | .escaped _ => failure

end

/-- A pattern as it is once its source has been read, which may set more of its flags. -/
def checked (p : Pattern) : Except Error Pattern :=
  let scan : Scan Unit := do
    let fuel := 4 * (← get).rest.length + 4
    let _ ← alternatives fuel p.verbose true
    let s ← get
    if !s.rest.isEmpty || s.asked.any (s.groups.length < ·) then failure
  match (tokens? p.source.toList).bind fun tokens => scan.run ⟨tokens, [], [], none, [], p⟩ with
  | some (_, s) => .ok s.flags
  | none => .error .invalidPattern

/-- The pattern with a source and the flag that ignores case. -/
def compile (source : String) : Except Error Pattern :=
  checked { plain source with ignoreCase := true }

end DocumentMapper.Pattern
