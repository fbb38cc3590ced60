import RegexLens.Markup.Ansi

/-! A terminal that receives coloured markup shows each character under the codes of its spans. -/

namespace RegexLens

/-- Whether a character ends a code, which digits and semicolons do not. -/
def endsCode (symbol : Char) : Bool :=
  '@' ≤ symbol && symbol ≤ '~'

/-- Where a terminal stands in what it receives. -/
inductive Reception
  /-- Outside of codes, where characters are shown. -/
  | text
  /-- Right behind the character that announces a code. -/
  | announced
  /-- Inside a code, of which some parameters have been received. -/
  | code (parameters : Text)
deriving DecidableEq, Repr

namespace Reception

/-- Whether a character is shown, and is neither part of a code nor the start of one. -/
def shows (reception : Reception) (symbol : Char) : Bool :=
  reception = text && symbol != '\x1b'

/-- Where the terminal stands behind one more character. -/
def next (reception : Reception) (symbol : Char) : Reception :=
  match reception with
  | text => if symbol = '\x1b' then announced else text
  | announced => if symbol = '[' then code [] else text
  | code parameters => if endsCode symbol then text else code (parameters ++ [symbol])

end Reception

/-- The text without the codes in it, from some reception on. -/
def withoutCodes (reception : Reception) : Text → Text
  | [] => []
  | symbol :: rest =>
    (if reception.shows symbol then [symbol] else []) ++ withoutCodes (reception.next symbol) rest

/-- A terminal with what it has shown. -/
structure Terminal where
  /-- Where it stands in what it receives. -/
  reception : Reception
  /-- The codes that were received since the last reset, in order. -/
  codes : List Text
  /-- The characters that were shown, each with the codes in force at that moment. -/
  shown : List (Char × List Text)
deriving DecidableEq, Repr

namespace Terminal

/-- A terminal that has received nothing. -/
def blank : Terminal :=
  ⟨.text, [], []⟩

/-- The codes in force behind one more character. -/
def codesAfter (terminal : Terminal) (symbol : Char) : List Text :=
  match terminal.reception with
  | .code parameters =>
    -- A code with this ending is one for styles, and without parameters it is the reset.
    if symbol ≠ 'm' then terminal.codes
    else if parameters = [] then []
    else terminal.codes ++ ['\x1b' :: '[' :: parameters ++ ['m']]
  | _ => terminal.codes

/-- Receives one character. -/
def receive (terminal : Terminal) (symbol : Char) : Terminal where
  reception := terminal.reception.next symbol
  codes := terminal.codesAfter symbol
  shown := terminal.shown ++
    if terminal.reception.shows symbol then [(symbol, terminal.codes)] else []

/-- Without its codes a text is what a terminal shows of it. -/
theorem shown_foldl_receive (text : Text) (terminal : Terminal) :
    (text.foldl receive terminal).shown.map Prod.fst =
      terminal.shown.map Prod.fst ++ withoutCodes terminal.reception text := by
  induction text generalizing terminal with
  | nil => simp [withoutCodes]
  | cons symbol rest ih =>
    rw [List.foldl_cons, ih, withoutCodes, ← List.append_assoc]
    congr 1
    -- The two look at the first character in the same way.
    cases shows : terminal.reception.shows symbol <;> simp [receive, shows]

variable {codes : List Text} {shown : List (Char × List Text)}

/-- Text without codes is shown under the codes in force, which stay as they are. -/
theorem foldl_receive_text {content : Text} (plain : '\x1b' ∉ content) :
    content.foldl receive ⟨.text, codes, shown⟩ =
      ⟨.text, codes, shown ++ content.map (·, codes)⟩ := by
  -- Each character is shown as it comes, since none of them starts a code.
  induction content generalizing shown with
  | nil => simp
  | cons symbol rest ih =>
    obtain ⟨other, others⟩ := not_or.mp (mt List.mem_cons.mpr plain)
    have shows : receive ⟨.text, codes, shown⟩ symbol =
        ⟨.text, codes, shown ++ [(symbol, codes)]⟩ := by
      simp [receive, Reception.next, Reception.shows, codesAfter, Ne.symm other]
    rw [List.foldl_cons, shows, ih others, List.map_cons, List.append_assoc]
    rfl

/-- The parameters of a code are collected and nothing is shown. -/
theorem foldl_receive_parameters {more : Text}
    (inside : ∀ symbol ∈ more, endsCode symbol = false) (received : Text) :
    more.foldl receive ⟨.code received, codes, shown⟩ =
      ⟨.code (received ++ more), codes, shown⟩ := by
  -- Whatever was received before is kept in front.
  induction more generalizing received with
  | nil => simp
  | cons symbol rest ih =>
    obtain ⟨parameter, others⟩ := List.forall_mem_cons.mp inside
    -- What ends a code for styles is no parameter.
    have other : symbol ≠ 'm' := by
      rintro rfl
      exact absurd parameter (by decide)
    have collects : receive ⟨.code received, codes, shown⟩ symbol =
        ⟨.code (received ++ [symbol]), codes, shown⟩ := by
      simp [receive, Reception.next, Reception.shows, codesAfter, parameter, other]
    rw [List.foldl_cons, collects, ih others, List.append_assoc]
    rfl

/-- A style that is started is the last one in force. -/
theorem foldl_receive_startCode (style : Style) :
    style.startCode.foldl receive ⟨.text, codes, shown⟩ =
      ⟨.text, codes ++ [style.startCode], shown⟩ := by
  -- Every style has parameters, and they are digits with separators.
  have some : style.colour ≠ [] := by
    fun_cases Style.colour style <;> decide
  have parameters : style.colour.all (! endsCode ·) = true := by
    fun_cases Style.colour style <;> decide
  -- The first two characters start a code, and the last one ends it.
  have opens : receive (receive ⟨.text, codes, shown⟩ '\x1b') '[' = ⟨.code [], codes, shown⟩ := by
    simp [receive, Reception.next, Reception.shows, codesAfter]
  have closes : receive ⟨.code style.colour, codes, shown⟩ 'm' =
      ⟨.text, codes ++ ['\x1b' :: '[' :: style.colour ++ ['m']], shown⟩ := by
    simp [receive, Reception.next, Reception.shows, codesAfter, some, endsCode]
  have inside : ∀ symbol ∈ style.colour, endsCode symbol = false := by simpa using parameters
  rw [Style.startCode, List.cons_append, List.cons_append, List.foldl_cons, List.foldl_cons,
    List.foldl_append, opens, foldl_receive_parameters inside, List.nil_append, List.foldl_cons,
    List.foldl_nil, closes]
  rfl

/-- Styles that are started one after the other are in force in this order. -/
theorem foldl_receive_startCodes (styles : List Style) :
    (styles.flatMap Style.startCode).foldl receive ⟨.text, codes, shown⟩ =
      ⟨.text, codes ++ styles.map Style.startCode, shown⟩ := by
  -- Each code is put behind those in force.
  induction styles generalizing codes with
  | nil => simp
  | cons style rest ih =>
    rw [List.flatMap_cons, List.foldl_append, foldl_receive_startCode, ih, List.append_assoc]
    rfl

/-- A reset leaves no style in force. -/
theorem foldl_receive_resetCode :
    resetCode.foldl receive ⟨.text, codes, shown⟩ = ⟨.text, [], shown⟩ := by
  simp [resetCode, receive, Reception.next, Reception.shows, codesAfter, endsCode]

end Terminal

namespace Markup

/-- The characters of markup in order, each with the styles of the spans around it, outermost first,
when the markup itself stands inside of some spans. -/
def characters (enclosing : List Style) : Markup → List (Char × List Style)
  | nil => []
  | text content rest => content.map (·, enclosing) ++ rest.characters enclosing
  | span style inner rest => inner.characters (enclosing ++ [style]) ++ rest.characters enclosing

/-- Without their styles the characters of markup are its plain text. -/
theorem characters_fst (markup : Markup) (enclosing : List Style) :
    (markup.characters enclosing).map Prod.fst = markup.plainText := by
  -- The styles around a character change from span to span, and its text does not.
  induction markup generalizing enclosing with
  | nil => rfl
  | text content rest ih => simp [characters, plainText, ih, Function.comp_def]
  | span style inner rest inside behind => simp [characters, plainText, inside, behind]

/-- A terminal on which the styles around some markup are in force shows the characters of the
markup under their codes, and the styles around it are in force again behind it. -/
theorem foldl_receive_ansiWithin {markup : Markup} (plain : '\x1b' ∉ markup.plainText)
    (enclosing : List Style) (shown : List (Char × List Text)) :
    (markup.ansiWithin enclosing).foldl Terminal.receive
        ⟨.text, enclosing.map Style.startCode, shown⟩ =
      ⟨.text, enclosing.map Style.startCode,
        shown ++ (markup.characters enclosing).map fun shown =>
          (shown.1, shown.2.map Style.startCode)⟩ := by
  -- What is in force at the end of a span is what was in force in front of it.
  induction markup generalizing enclosing shown with
  | nil => simp [ansiWithin, characters]
  | text content rest ih =>
    simp only [plainText, List.mem_append, not_or] at plain
    rw [ansiWithin, List.foldl_append, Terminal.foldl_receive_text plain.1, ih plain.2]
    simp [characters]
  | span style inner rest inside behind =>
    simp only [plainText, List.mem_append, not_or] at plain
    have entered : enclosing.map Style.startCode ++ [style.startCode] =
        (enclosing ++ [style]).map Style.startCode := by simp
    -- The reset ends the styles around the span as well, and these are started once more.
    simp only [ansiWithin, List.foldl_append, Terminal.foldl_receive_startCode, entered,
      inside plain.1, Terminal.foldl_receive_resetCode, Terminal.foldl_receive_startCodes,
      List.nil_append, behind plain.2]
    simp [characters]

/-- A terminal that receives markup in its coloured form shows every character under exactly the
start codes of the spans around it, outermost first, and has no code in force at the end; without
its codes the coloured form is the plain text. -/
theorem ansi_shows_styles (markup : Markup) (plain : '\x1b' ∉ markup.plainText) :
    let terminal := (markup.render true).foldl Terminal.receive .blank
    terminal.shown = (markup.characters []).map (fun shown =>
        (shown.1, shown.2.map Style.startCode)) ∧
      terminal.codes = [] ∧ terminal.reception = .text ∧
      withoutCodes .text (markup.render true) = markup.plainText := by
  intro terminal
  -- The terminal starts without codes and without anything shown.
  have received : terminal = ⟨.text, [], (markup.characters []).map fun shown =>
      (shown.1, shown.2.map Style.startCode)⟩ :=
    foldl_receive_ansiWithin plain [] []
  -- What a terminal shows is what is left without the codes.
  have stripped := Terminal.shown_foldl_receive (markup.render true) .blank
  refine ⟨by rw [received], by rw [received], by rw [received], ?_⟩
  calc withoutCodes .text (markup.render true)
      = terminal.shown.map Prod.fst := by rw [stripped]; rfl
    _ = (markup.characters []).map Prod.fst := by simp [received, Function.comp_def]
    _ = markup.plainText := markup.characters_fst []

/-- Behind an empty span and behind a span at the end of its own, the styles around are in force. -/
theorem ansi_shows_styles_nested :
    let brackets : Markup := .text ['['] (.span .error (.text [] .nil) (.text ['a'] (.span .range
      (.text ['-'] .nil) .nil)))
    let markup : Markup := .span .characterClass brackets (.text ['b'] .nil)
    '\x1b' ∉ markup.plainText ∧
      ((markup.render true).foldl Terminal.receive .blank).shown =
        [('[', ["\x1b[32m".toList]), ('a', ["\x1b[32m".toList]),
          ('-', ["\x1b[32m".toList, "\x1b[04;32m".toList]), ('b', [])] := by
  intro brackets markup
  have plain : '\x1b' ∉ markup.plainText := by decide
  exact ⟨plain, (ansi_shows_styles markup plain).1⟩

end Markup

end RegexLens
