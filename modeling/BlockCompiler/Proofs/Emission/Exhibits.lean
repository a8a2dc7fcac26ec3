import BlockCompiler.Proofs.Emission.Generated
import BlockCompiler.Proofs.Emission.Neat
import BlockCompiler.Proofs.Emission.Trees

/-!
The codes of values show their blocks: each block of a tree of values can be seen in the code of the tree, and
the headers that it needs are included.
-/

namespace BlockCompiler

/-- A code may stand as an expression, and shows some blocks. -/
structure Shows (heads : List BlockHead) (code : String) (pass : Pass) : Prop where
  neat : Neat code
  shown : ∀ head ∈ heads, head.ShownIn pass code.toList

/-- A site gives the default for a row without code, and else a code that shows the blocks of the row. -/
def Site.ShowsAt (site : Site) (name : String) (heads : List BlockHead) : Prop :=
  ∀ order default s, Gives (site.value name order default) s fun text t => text = default ∧ heads = [] ∨
    Shows heads text t

/-- What a template gives is the code of an expression that shows the block of the site and all that it
reads. -/
def Exhibits (site : Site) (below : String → List BlockHead) (output : Option Output) (pass : Pass) : Prop :=
  ∃ code order, output = some (.value code order) ∧
    Shows (site.head :: site.head.reads.flatMap below) code pass

section Parts

/-- A text that ends with no identifier. -/
theorem edged_text {front back : String}
    (edged : ∃ c, back.toList.getLast? = some c ∧ isIdentifierChar c = false) :
    Edged (front ++ back).toList := by
  obtain ⟨c, last, foreign⟩ := edged
  rw [String.toList_append]
  refine edged_append (fun none => by rw [none] at last; cases last) fun d among => ?_
  cases last.symm.trans among
  exact foreign

/-- What stands first in a text. -/
theorem within_front (part back : String) : Within part.toList (part ++ back).toList := by
  rw [String.toList_append]
  exact within_refl.append _

/-- What stands behind a text that ends with no identifier. -/
theorem within_between {front part : String} (edged : Edged front.toList) (back : String) :
    Within part.toList (front ++ part ++ back).toList := by
  rw [String.toList_append, String.toList_append]
  exact (within_refl.behind edged).append _

theorem within_back {front part : String} (edged : Edged front.toList) :
    Within part.toList (front ++ part).toList := by
  simpa using within_between edged ""

end Parts

section Shows

variable {heads : List BlockHead} {code : String} {s t : Pass}

theorem Shows.later (shows : Shows heads code s) (precedes : s.Precedes t) : Shows heads code t :=
  ⟨shows.neat, fun head among => (shows.shown head among).later precedes⟩

theorem Shows.within (shows : Shows heads code s) {more : List Char} (within : Within code.toList more) :
    ∀ head ∈ heads, head.ShownIn s more := fun head among => (shows.shown head among).within within

theorem Shows.placed (shows : Shows heads code s) (order inner : Order) :
    Shows heads (placed order inner code) s := by
  unfold BlockCompiler.placed
  split_ifs
  · refine ⟨shows.neat.toWhole.parenthesized, shows.within ?_⟩
    exact within_between (by simp [Edged]; decide) ")"
  · exact shows

theorem Shows.filled (shows : Shows heads code s) : code ≠ "" := by
  rintro rfl
  obtain ⟨⟨c, headed, _⟩, _⟩ := shows.neat.opens
  cases headed

/-- Of blocks that are shown in a numeral nothing can be seen. -/
theorem Shows.of_numeral (shows : Shows heads code s) (numeral : isNumeral code) (more : List Char) :
    ∀ head ∈ heads, head.ShownIn s more := by
  intro head among
  obtain ⟨seen, included⟩ := shows.shown head among
  refine ⟨?_, included⟩
  obtain ⟨⟨c, headed, first⟩, _⟩ := shows.neat.opens
  have plain : ∀ d ∈ ['\x27', '('], d ∉ code.toList := by
    cases shape : code.toList with
    | nil =>
      rw [shape] at headed
      cases headed
    | cons e rest =>
      rw [shape] at headed
      cases headed
      have filled : isBlank c = false := by
        rcases first with inWord | sign
        · exact not_isBlank_of_isIdentifierChar inWord
        · have signs : ∀ d ∈ openingSigns, isBlank d = false := by decide
          exact signs c sign
      obtain ⟨start, later⟩ := isNumeral_tail numeral shape filled
      have facts : ∀ d ∈ ['\x27', '('], isDigit d = false ∧ d ≠ '-' ∧ d ≠ '.' ∧ isBlank d = false := by decide
      intro d quote member
      obtain ⟨noDigit, noMinus, noPoint, noBlank⟩ := facts d quote
      rcases List.mem_cons.mp member with rfl | behind
      · rcases start with digit | minus
        · rw [noDigit] at digit
          cases digit
        · exact noMinus minus
      · rcases later d behind with blank | digit | point
        · rw [noBlank] at blank
          cases blank
        · rw [noDigit] at digit
          cases digit
        · exact noPoint point
  have bracket : ∀ name arguments, ¬ Within (callCode name arguments).toList code.toList :=
    fun name arguments within =>
    plain '(' (by simp) (within.isInfix.subset (by simp [callCode]))
  unfold BlockHead.IsSeen at *
  split at seen
  · exact absurd (seen.isInfix.subset (by simp [literal])) (plain '\x27' (by simp))
  · obtain ⟨name, low, high, _, within⟩ := seen
    exact absurd within (bracket name [low, high])
  · obtain ⟨name, arguments, _, _, within⟩ := seen
    exact absurd within (bracket name arguments)
  · trivial

/-- A row shows its blocks in what is given for it, or else in a default that may stand there. -/
theorem Site.ShowsAt.shows {site : Site} {name : String} (showsAt : site.ShowsAt name heads)
    {default : String} (neat : Neat default) (order : Order) :
    Gives (site.value name order default) s (Shows heads) := by
  refine (showsAt order default s).imp ?_
  rintro text t _ (⟨rfl, rfl⟩ | shows)
  · exact ⟨neat, by simp⟩
  · exact shows

end Shows

/-- A text that may stand between two codes. -/
structure Separates (between : String) : Prop where
  whole : Whole between
  follows : ∀ more, Follows (between.toList ++ more)
  edged : ∃ c, between.toList.getLast? = some c ∧ isIdentifierChar c = false

theorem separates_comma : Separates ", " :=
  ⟨whole_of_plain (by decide), fun _ => follows_cons (by decide) (by decide), ' ', rfl, by decide⟩

/-- The signs that stand between codes, with blanks around them. -/
def infixSigns : List String :=
  ["+", "-", "*", "/", "==", "!=", "<", "<=", ">", ">=", "&&", "||", "?", ":", "=", "+=", "<<"]

theorem separates_sign (sign : String) (among : sign ∈ infixSigns) : Separates (spaced sign) := by
  have facts : ∀ sign ∈ infixSigns, (∀ c ∈ (spaced sign).toList, isSpecial c = false) ∧
      ∃ c ∈ sign.toList.head?, isIdentifierChar c = false ∧ c ≠ '(' := by decide
  obtain ⟨plain, c, headed, apart⟩ := facts sign among
  refine ⟨whole_of_plain plain, fun more => ?_, ' ', by simp [spaced, List.getLast?_cons], by decide⟩
  cases shape : sign.toList with
  | nil =>
    rw [shape] at headed
    cases headed
  | cons d rest =>
    rw [shape] at headed
    cases headed
    rw [toList_spaced, shape]
    exact follows_blank apart

section Forms

variable {heads others : List BlockHead} {code other : String} {s : Pass}

theorem Shows.joined (first : Shows heads code s) (second : Shows others other s) {between : String}
    (separates : Separates between) :
    Shows (heads ++ others) (code ++ between ++ other) s := by
  refine ⟨?_, List.forall_mem_append.mpr ⟨?_, second.within (within_back (edged_text separates.edged))⟩⟩
  · rw [String.append_assoc]
    refine first.neat.append (separates.whole.append second.neat.toWhole) ?_
    rw [String.toList_append]
    exact separates.follows _
  · rw [String.append_assoc]
    exact first.within (within_front code _)

theorem shows_joinTexts {α : Type} {items : List α} {texts : List String} {inside : α → List BlockHead}
    (filled : texts ≠ []) (each : List.Forall₂ (fun item text => Shows (inside item) text s) items texts)
    {between : String} (separates : Separates between) :
    Shows (items.flatMap inside) (joinTexts between texts) s := by
  induction each with
  | nil => exact absurd rfl filled
  | @cons item text items texts first others ih =>
    cases others with
    | nil => simpa [joinTexts] using first
    | @cons next other items texts _ _ =>
      rw [List.flatMap_cons, joinTexts, String.intercalate_cons_cons]
      exact first.joined (ih (by simp)) separates

/-- A code behind a sign. -/
theorem Shows.signed (shows : Shows heads code s) (lead : String) (among : lead ∈ ["-", "- ", "!"]) :
    Shows heads (lead ++ code) s := by
  have edges : ∀ lead ∈ ["-", "- ", "!"], ∀ c ∈ lead.toList.getLast?, isIdentifierChar c = false := by decide
  exact ⟨shows.neat.toWhole.signed lead among, shows.within (within_back (edges lead among))⟩

/-- A call. -/
theorem Shows.called (shows : Shows heads code s) {name : String} (isName : IsName name.toList) :
    Shows heads (name ++ "(" ++ code ++ ")") s := by
  refine ⟨?_, shows.within (within_between (edged_text ⟨'(', rfl, by decide⟩) ")")⟩
  have neat := (neat_word isName).applied shows.neat.toWhole "(" ")" (by simp)
  simpa only [String.append_assoc] using neat

/-- An element of a list by its place. -/
theorem Shows.indexed (shows : Shows heads code s) (place : Shows others other s) :
    Shows (heads ++ others) (code ++ "[" ++ other ++ "]") s := by
  refine ⟨?_, List.forall_mem_append.mpr
    ⟨?_, place.within (within_between (edged_text ⟨'[', rfl, by decide⟩) "]")⟩⟩
  · have neat := shows.neat.applied place.neat.toWhole "[" "]" (by simp)
    simpa only [String.append_assoc] using neat
  · simp only [String.append_assoc]
    exact shows.within (within_front code _)

/-- What is asked of a list. -/
theorem Shows.accessed (shows : Shows heads code s) (accessor : Accessor) :
    Shows heads (code ++ ("." ++ accessor.name ++ "()")) s := by
  refine ⟨shows.neat.append ?_ ?_, shows.within (within_front code _)⟩
  · have words : ∀ accessor : Accessor, ∀ c ∈ ("." ++ accessor.name).toList, isSpecial c = false := by
      intro accessor
      cases accessor <;> decide
    have brackets : Whole ("(" ++ "" ++ ")") := whole_empty.enclosed "(" ")" (by simp)
    exact (whole_of_plain (words accessor)).append brackets
  · rw [String.append_assoc, String.toList_append]
    exact follows_cons (by decide) (by decide)

end Forms

section Templates

variable {site : Site} {below : String → List BlockHead} {kind : BlockKind} {s t : Pass}

/-- A block reads all rows of its kind, unless it takes one end of a list. -/
theorem BlockHead.reads_of_kind {head : BlockHead} (named : BlockKind.ofName? head.type = some kind)
    (whole : head.takesEnd = false) :
    head.reads = (kind.rows head.mutation).map (·.1) := by
  rw [BlockHead.reads, named, Option.elim_some, List.filter_eq_self.mpr]
  simp [whole]

theorem BlockHead.takesEnd_of_kind {head : BlockHead} (named : BlockKind.ofName? head.type = some kind)
    (other : kind ≠ .getIndex) :
    head.takesEnd = false := by
  simp [BlockHead.takesEnd, named, other]

/-- A code that shows what a block reads shows all, if it shows the block. -/
theorem exhibits {heads : List BlockHead} {code : String} {order : Order} (shows : Shows heads code s)
    (read : site.head.reads.flatMap below = heads) (own : site.head.ShownIn s code.toList) :
    Exhibits site below (some (.value code order)) s :=
  ⟨code, order, rfl, shows.neat, List.forall_mem_cons.mpr ⟨own, read ▸ shows.shown⟩⟩

/-- A code shows no blocks. -/
theorem shows_nothing {code : String} (neat : Neat code) : Shows [] code s := ⟨neat, by simp⟩

/-- The blocks in the rows of a kind that always has the same. -/
theorem BlockHead.reads_plain {head : BlockHead} (named : BlockKind.ofName? head.type = some kind)
    (other : kind ≠ .getIndex) (plain : kind.shape.family = none) :
    head.reads = kind.shape.rows.map (·.1) := by
  rw [BlockHead.reads_of_kind named (BlockHead.takesEnd_of_kind named other), BlockKind.rows, plain]
  simp

/-- A block that is not looked for in its code and needs no headers. -/
theorem BlockHead.shownIn_of_kind {head : BlockHead} {code : List Char}
    (named : BlockKind.ofName? head.type = some kind)
    (unseen : kind ≠ .text ∧ kind ≠ .randomInt ∧ kind ≠ .callProcedure)
    (without : kind ∉ [.number, .arithmetic, .single, .print, .randomInt]) : head.ShownIn s code :=
  ⟨BlockHead.isSeen_of_kind named unseen, BlockHead.isIncluded_of_kind named without⟩

theorem Emission.gives_writeWhole {value : Int} :
    Gives (Emission.ofNumeral (writeWhole value)) s fun text _ => text = toString value := by
  unfold writeWhole
  split_ifs
  · exact gives_throw
  · exact gives_return rfl

/-- What stands in all rows of a family. -/
theorem Site.gives_values (stem : String)
    (showsAt : ∀ i : Nat, site.ShowsAt (stem ++ toString i) (below (stem ++ toString i))) {default : String}
    (neat : Neat default) (count : Nat) (order : Order) :
    Gives (site.values stem count order default) s fun texts t =>
      List.Forall₂ (fun i text => Shows (below (stem ++ toString i)) text t) (List.range count) texts := by
  refine gives_mapM _ (fun i _ s => (showsAt i).shows neat order) ?_
  exact fun _ _ _ _ precedes shows => shows.later precedes

theorem gives_wholeLiteral {value : Int} :
    Gives (wholeLiteral value) s fun output _ => ∃ code order, output = some (.value code order) ∧
    Neat code := by
  refine Emission.gives_writeWhole.bind ?_
  rintro text t _ rfl
  exact gives_return ⟨_, _, rfl, neat_int value⟩

/-- The literal of a number; that of an infinite one needs a header. -/
theorem gives_numberLiteral {n : Number} :
    Gives (numberLiteral n) s fun output t => (∃ code order, output = some (.value code order) ∧ Neat code) ∧
      ∀ negative, n = .float (.infinite negative) → t.definitions.has "include_cmath" := by
  cases n with
  | int value => exact gives_wholeLiteral.imp fun _ _ _ shape => ⟨shape, by simp⟩
  | float value =>
    cases value with
    | nan => exact gives_return ⟨⟨_, _, rfl, neat_word (by decide)⟩, by simp⟩
    | infinite negative =>
      have word : Neat "INFINITY" := neat_word (by decide)
      refine (Emission.gives_includeHeader "cmath" (by decide)).bind fun _ t _ has => ?_
      cases negative with
      | false => exact gives_return ⟨⟨_, _, rfl, word⟩, fun _ _ => has⟩
      | true => exact gives_return ⟨⟨_, _, rfl, word.toWhole.signed "-" (by simp)⟩, fun _ _ => has⟩
    | finite negative mantissa exponent =>
      cases broken : (Binary64.finite negative mantissa exponent).isWhole with
      | true =>
        obtain ⟨whole, truncated⟩ :
          ∃ whole, (Binary64.finite negative mantissa exponent).truncate? = some whole := ⟨_, rfl⟩
        have code : numberLiteral (.float (.finite negative mantissa exponent)) = wholeLiteral whole := by
          simp only [numberLiteral, broken, if_true, truncated]
        rw [code]
        exact gives_wholeLiteral.imp fun _ _ _ shape => ⟨shape, by simp⟩
      | false =>
        simp only [numberLiteral, broken]
        exact gives_return ⟨⟨_, _, rfl, neat_broken broken⟩, by simp⟩

theorem exhibits_number (named : BlockKind.ofName? site.head.type = some .number) :
    Gives (Template.number site) s (Exhibits site below) := by
  unfold Template.number
  extract_lets raw
  refine Emission.gives_ofNumeral.bind ?_
  rintro n t _ ⟨read, rfl⟩
  refine gives_numberLiteral.imp ?_
  rintro output u _ ⟨⟨code, order, rfl, neat⟩, has⟩
  have isNumber : numberIn (site.head.field "NUM") = .ok n := read
  have read : site.head.reads = [] := BlockHead.reads_plain named (by decide) rfl
  refine exhibits (shows_nothing neat) (by rw [read]; rfl)
    ⟨BlockHead.isSeen_of_kind named (by decide), fun name among => ?_⟩
  unfold BlockHead.headers at among
  simp only [named, isNumber] at among
  split at among
  · rename_i negative same
    obtain rfl : name = "cmath" := List.mem_singleton.mp among
    exact has negative (Except.ok.inj same)
  · cases among

theorem exhibits_arithmetic (named : BlockKind.ofName? site.head.type = some .arithmetic)
    (showsAt : ∀ name, site.ShowsAt name (below name)) :
    Gives (Template.arithmetic site) s (Exhibits site below) := by
  have read : site.head.reads.flatMap below = below "A" ++ below "B" := by
    simp [BlockHead.reads_plain named (by decide) rfl, BlockKind.shape]
  have seen : ∀ t code, site.head.IsSeen t code := fun t code => BlockHead.isSeen_of_kind named (by decide)
  unfold Template.arithmetic
  split_ifs with power
  · refine (Emission.gives_includeHeader "cmath" (by decide)).bind fun _ t _ has => ?_
    refine ((showsAt "A").shows neat_zero .none).bind fun a u precedes first => ?_
    refine ((showsAt "B").shows neat_zero .none).bind fun b v later second => ?_
    have code : s!"pow({a}, {b})" = "pow" ++ "(" ++ (a ++ ", " ++ b) ++ ")" := by
      show "pow(" ++ a ++ ", " ++ b ++ ")" = _
      simp only [← String.append_assoc]
      rfl
    rw [code]
    have shows := ((first.later later).joined second separates_comma).called (by decide : IsName "pow".toList)
    refine gives_return (exhibits shows read ⟨seen _ _, fun name among => ?_⟩)
    have header : name = "cmath" := by
      simpa [BlockHead.headers, named, show (site.head.field "OP").isText "POWER" = true
        from power] using among
    rw [header]
    exact (precedes.trans later).has _ has
  · refine Emission.gives_choose.bind ?_
    rintro ⟨operator, order⟩ t _ ⟨⟨word, among⟩, rfl⟩
    refine ((showsAt "A").shows neat_zero order).bind fun a u _ first => ?_
    refine ((showsAt "B").shows neat_zero order).bind fun b v later second => ?_
    have separates : Separates operator := by
      simp only [Template.arithmeticOperators, List.mem_cons, Prod.mk.injEq, List.not_mem_nil,
        or_false] at among
      rcases among with ⟨_, rfl, _⟩ | ⟨_, rfl, _⟩ | ⟨_, rfl, _⟩ | ⟨_, rfl, _⟩
      · exact separates_sign "+" (by decide)
      · exact separates_sign "-" (by decide)
      · exact separates_sign "*" (by decide)
      · exact separates_sign "/" (by decide)
    refine gives_return
      (exhibits ((first.later later).joined second separates) read ⟨seen _ _, fun name inHeaders => ?_⟩)
    have none : (site.head.field "OP").isText "POWER" = false := by simpa [Site.field] using power
    simp [BlockHead.headers, named, none] at inHeaders

theorem exhibits_single (named : BlockKind.ofName? site.head.type = some .single)
    (showsAt : ∀ name, site.ShowsAt name (below name)) :
    Gives (Template.single site) s (Exhibits site below) := by
  have read : site.head.reads.flatMap below = below "NUM" := by
    simp [BlockHead.reads_plain named (by decide) rfl, BlockKind.shape]
  have seen : ∀ t code, site.head.IsSeen t code := fun t code => BlockHead.isSeen_of_kind named (by decide)
  unfold Template.single
  split_ifs with negative
  · refine ((showsAt "NUM").shows neat_zero .unaryPrefix).bind fun text t _ shows => ?_
    have signed : Shows (below "NUM") (Template.negated text) t := by
      unfold Template.negated
      split_ifs
      · exact shows.signed _ (by simp)
      · exact shows.signed _ (by simp)
    refine gives_return (exhibits signed read ⟨seen _ _, fun name among => ?_⟩)
    have none : (site.head.field "OP").isText "NEG" = true := negative
    simp [BlockHead.headers, named, none] at among
  · refine (Emission.gives_includeHeader "cmath" (by decide)).bind fun _ t _ has => ?_
    refine ((showsAt "NUM").shows neat_zero .none).bind fun text u precedes shows => ?_
    refine Emission.gives_choose.bind ?_
    rintro function v _ ⟨⟨word, among⟩, rfl⟩
    have isName : IsName function.toList := by
      have names : ∀ entry ∈ Template.singleFunctions, IsName entry.2.toList := by decide
      exact names _ among
    refine gives_return (exhibits (shows.called isName) read ⟨seen _ _, fun name inHeaders => ?_⟩)
    have none : (site.head.field "OP").isText "NEG" = false := by simpa [Site.field] using negative
    have header : name = "cmath" := by simpa [BlockHead.headers, named, none] using inHeaders
    rw [header]
    exact precedes.has _ has

theorem exhibits_randomInt (named : BlockKind.ofName? site.head.type = some .randomInt)
    (showsAt : ∀ name, site.ShowsAt name (below name)) :
    Gives (Template.randomInt site) s (Exhibits site below) := by
  have read : site.head.reads.flatMap below = below "FROM" ++ below "TO" := by
    simp [BlockHead.reads_plain named (by decide) rfl, BlockKind.shape]
  unfold Template.randomInt
  refine (Emission.gives_includeHeader "cstdlib" (by decide)).bind fun _ t _ has => ?_
  refine ((showsAt "FROM").shows neat_zero .none).bind fun low u precedes first => ?_
  refine ((showsAt "TO").shows neat_zero .none).bind fun high v later second => ?_
  refine Emission.gives_provideFunction.bind ?_
  rintro name w last ⟨isName, helper⟩
  have code : s!"{name}({low}, {high})" = name ++ "(" ++ (low ++ ", " ++ high) ++ ")" := by
    show name ++ "(" ++ low ++ ", " ++ high ++ ")" = _
    simp only [← String.append_assoc]
  rw [code]
  have shows := ((first.later (later.trans last)).joined (second.later last) separates_comma).called isName
  refine gives_return (exhibits shows read ⟨?_, fun header among => ?_⟩)
  · simp only [BlockHead.IsSeen, named]
    exact ⟨name, low, high, helper, within_refl⟩
  · obtain rfl : header = "cstdlib" := by simpa [BlockHead.headers, named] using among
    exact (precedes.trans (later.trans last)).has _ has

theorem exhibits_boolean (named : BlockKind.ofName? site.head.type = some .boolean) :
    Gives (Template.boolean site) s (Exhibits site below) := by
  have isName : IsName (if (site.field "BOOL").isText "TRUE" then "true" else "false").toList := by
    split_ifs <;> decide
  refine gives_return
    (exhibits (shows_nothing (neat_word isName)) ?_ (BlockHead.shownIn_of_kind named (by decide) (by decide)))
  simp [BlockHead.reads_plain named (by decide) rfl, BlockKind.shape]

theorem exhibits_compare (named : BlockKind.ofName? site.head.type = some .compare)
    (showsAt : ∀ name, site.ShowsAt name (below name)) :
    Gives (Template.compare site) s (Exhibits site below) := by
  unfold Template.compare
  extract_lets field order
  refine ((showsAt "A").shows neat_zero order).bind fun a t _ first => ?_
  refine ((showsAt "B").shows neat_zero order).bind fun b u later second => ?_
  refine Emission.gives_choose.bind ?_
  rintro operator v _ ⟨⟨word, among⟩, rfl⟩
  have sign : operator ∈ infixSigns := by
    have signs : ∀ entry ∈ Template.comparisonOperators, entry.2 ∈ infixSigns := by decide
    exact signs _ among
  have code : s!"{a} {operator} {b}" = a ++ spaced operator ++ b := by
    show a ++ " " ++ operator ++ " " ++ b = _
    simp only [spaced, ← String.append_assoc]
  rw [code]
  refine gives_return (exhibits ((first.later later).joined second (separates_sign _ sign)) ?_
    (BlockHead.shownIn_of_kind named (by decide) (by decide)))
  simp [BlockHead.reads_plain named (by decide) rfl, BlockKind.shape]

/-- Two operands of a logical operator, where either may be missing. -/
theorem shows_logical {heads others : List BlockHead} {a b operator identity : String}
    (sign : operator ∈ infixSigns) (isName : IsName identity.toList)
    (first : a = "" ∧ heads = [] ∨ Shows heads a s) (second : b = "" ∧ others = [] ∨ Shows others b s) :
    Shows (heads ++ others) (Template.joined a b operator identity) s := by
  have separates := separates_sign _ sign
  have spread : ∀ a b : String, s!"{a} {operator} {b}" = a ++ spaced operator ++ b := by
    intro a b
    show a ++ " " ++ operator ++ " " ++ b = _
    simp only [spaced, ← String.append_assoc]
  have word : ∀ {name : String}, IsName name.toList → Shows [] name s :=
    fun isName => shows_nothing (neat_word isName)
  have operand : ∀ {heads : List BlockHead} {code : String}, code = "" ∧ heads = [] ∨ Shows heads code s →
      Shows heads (if code = "" then identity else code) s := by
    rintro heads code (⟨rfl, rfl⟩ | shows)
    · exact word isName
    · rwa [if_neg shows.filled]
  unfold Template.joined
  by_cases missing : a = "" ∧ b = ""
  · have none : heads = [] ∧ others = [] :=
      ⟨first.elim And.right fun shows => absurd missing.1 shows.filled,
        second.elim And.right fun shows => absurd missing.2 shows.filled⟩
    have false := word (by decide : IsName "false".toList)
    have code : s!"false {operator} false" = "false" ++ spaced operator ++ "false" := by
      show "false " ++ operator ++ " false" = _
      have front : "false " = "false" ++ " " := rfl
      have back : " false" = " " ++ "false" := rfl
      simp only [front, back, spaced, String.append_assoc]
    rw [if_pos missing, none.1, none.2, code]
    exact false.joined false separates
  · have whole := (operand first).joined (operand second) separates
    rw [← spread] at whole
    rw [if_neg missing]
    exact whole

theorem exhibits_operation (named : BlockKind.ofName? site.head.type = some .operation)
    (showsAt : ∀ name, site.ShowsAt name (below name)) :
    Gives (Template.operation site) s (Exhibits site below) := by
  unfold Template.operation
  extract_lets conjunction order
  refine (showsAt "A" order "" s).bind fun a t _ first => ?_
  refine (showsAt "B" order "" t).bind fun b u later second => ?_
  have firstThere := first.imp_right fun shows => shows.later later
  have read : site.head.reads.flatMap below = below "A" ++ below "B" := by
    simp [BlockHead.reads_plain named (by decide) rfl, BlockKind.shape]
  refine gives_return (exhibits ?_ read (BlockHead.shownIn_of_kind named (by decide) (by decide)))
  split_ifs
  · exact shows_logical (by decide) (by decide) firstThere second
  · exact shows_logical (by decide) (by decide) firstThere second

theorem exhibits_negate (named : BlockKind.ofName? site.head.type = some .negate)
    (showsAt : ∀ name, site.ShowsAt name (below name)) :
    Gives (Template.negate site) s (Exhibits site below) := by
  unfold Template.negate
  refine ((showsAt "BOOL").shows (neat_word (by decide : IsName "true".toList)) .unaryPrefix).bind
    fun text t _ shows => ?_
  refine gives_return
    (exhibits (shows.signed "!" (by simp)) ?_ (BlockHead.shownIn_of_kind named (by decide) (by decide)))
  simp [BlockHead.reads_plain named (by decide) rfl, BlockKind.shape]

theorem exhibits_ternary (named : BlockKind.ofName? site.head.type = some .ternary)
    (showsAt : ∀ name, site.ShowsAt name (below name)) :
    Gives (Template.ternary site) s (Exhibits site below) := by
  unfold Template.ternary
  refine ((showsAt "IF").shows (neat_word (by decide : IsName "false".toList)) .conditional).bind
    fun condition t _ first => ?_
  refine ((showsAt "THEN").shows neat_zero .conditional).bind fun yes u precedes second => ?_
  refine ((showsAt "ELSE").shows neat_zero .conditional).bind fun no v later third => ?_
  have code : s!"{condition} ? {yes} : {no}" = condition ++ spaced "?" ++ (yes ++ spaced ":" ++ no) := by
    show condition ++ " ? " ++ yes ++ " : " ++ no = _
    have signs : spaced "?" = " ? " ∧ spaced ":" = " : " := ⟨rfl, rfl⟩
    rw [signs.1, signs.2]
    simp only [← String.append_assoc]
  rw [code]
  have choices := (second.later later).joined third (separates_sign ":" (by decide))
  have whole := (first.later (precedes.trans later)).joined choices (separates_sign "?" (by decide))
  refine gives_return (exhibits whole ?_ (BlockHead.shownIn_of_kind named (by decide) (by decide)))
  simp [BlockHead.reads_plain named (by decide) rfl, BlockKind.shape]

theorem exhibits_text (named : BlockKind.ofName? site.head.type = some .text) :
    Gives (Template.text site) s (Exhibits site below) := by
  unfold Template.text
  extract_lets raw
  refine Emission.gives_textOf.bind ?_
  rintro text t _ ⟨shown, rfl⟩
  have word : (site.head.field "TEXT").word = text := by
    have field : raw = site.head.field "TEXT" := rfl
    rw [← field]
    split_ifs at shown with vacant
    · cases shown
      clear_value raw
      cases raw <;> simp_all [Json.isVoid, Json.word, Json.asText?]
    · rw [shown]
      rfl
  refine gives_return
    (exhibits (shows_nothing (neat_literal text)) ?_ ⟨?_, BlockHead.isIncluded_of_kind named (by decide)⟩)
  · simp [BlockHead.reads_plain named (by decide) rfl, BlockKind.shape]
  · simp only [BlockHead.IsSeen, named, word]
    exact within_refl

theorem exhibits_readVariable (named : BlockKind.ofName? site.head.type = some .readVariable) :
    Gives (Template.readVariable site) s (Exhibits site below) := by
  unfold Template.readVariable Site.getVariable
  rw [bind_assoc]
  refine Emission.gives_textOf.bind fun name t _ _ => ?_
  refine (Emission.gives_getName name .variable).bind ?_
  rintro text u _ ⟨isName, _⟩
  refine gives_return
    (exhibits (shows_nothing (neat_word isName)) ?_ (BlockHead.shownIn_of_kind named (by decide) (by decide)))
  simp [BlockHead.reads_plain named (by decide) rfl, BlockKind.shape]

/-- The rows of a list of items. -/
theorem BlockHead.reads_items {head : BlockHead} (named : BlockKind.ofName? head.type = some kind)
    (other : kind ≠ .getIndex) (plain : kind.shape.rows = []) (family : kind.shape.family = some .items)
    {count : Nat} (counted : itemCount head.mutation = .ok count) :
    head.reads = (List.range count).map ("ADD" ++ toString ·) := by
  rw [BlockHead.reads_of_kind named (BlockHead.takesEnd_of_kind named other), BlockKind.rows, plain, family]
  simp only [Option.map_some, Option.getD_some, List.nil_append, RowFamily.rows, counted,
    Int.toNat_natCast, List.map_map]
  rfl

theorem exhibits_join {tight : Prop} (named : BlockKind.ofName? site.head.type = some .join)
    (valid : site.head.Valid tight .join) (showsAt : ∀ name, site.ShowsAt name (below name)) :
    Gives (Template.join site) s (Exhibits site below) := by
  obtain ⟨count, counted⟩ := valid.items
  have own : ∀ t code, site.head.ShownIn t code :=
    fun t code => BlockHead.shownIn_of_kind named (by decide) (by decide)
  have read := BlockHead.reads_items named (by decide) rfl rfl counted
  unfold Template.join
  refine Emission.gives_ofCount.bind ?_
  rintro found t _ ⟨same, rfl⟩
  cases counted.symm.trans same
  by_cases empty : (count : Int) = 0
  · obtain rfl : count = 0 := by omega
    rw [if_pos empty]
    exact gives_return (exhibits (shows_nothing (neat_literal "")) (by rw [read]; rfl) (own _ _))
  · rw [if_neg empty]
    refine (Site.gives_values "ADD" (fun _ => showsAt _) (neat_literal "") count .additive).bind
      fun texts u _ each => ?_
    have filled : texts ≠ [] := by
      rintro rfl
      have length := each.length_eq
      rw [List.length_range, List.length_nil] at length
      omega
    refine gives_return (exhibits (shows_joinTexts filled each (separates_sign "+" (by decide))) ?_ (own _ _))
    rw [read, List.flatMap_map]

theorem exhibits_createList (named : BlockKind.ofName? site.head.type = some .createList) {tight : Prop}
    (valid : site.head.Valid tight .createList) (showsAt : ∀ name, site.ShowsAt name (below name)) :
    Gives (Template.createList site) s (Exhibits site below) := by
  obtain ⟨count, counted⟩ := valid.items
  have own : ∀ t code, site.head.ShownIn t code :=
    fun t code => BlockHead.shownIn_of_kind named (by decide) (by decide)
  have read := BlockHead.reads_items named (by decide) rfl rfl counted
  unfold Template.createList
  refine Emission.gives_ofCount.bind ?_
  rintro found t _ ⟨same, rfl⟩
  cases counted.symm.trans same
  refine (Site.gives_values "ADD" (fun _ => showsAt _) neat_zero count .none).bind fun texts u _ each => ?_
  have listed : Shows (site.head.reads.flatMap below) ("\x7b" ++ joinTexts ", " texts ++ "\x7d") u := by
    rw [read, List.flatMap_map]
    by_cases empty : texts = []
    · subst empty
      rw [List.forall₂_nil_right_iff.mp each]
      exact shows_nothing whole_empty.listed
    · have shows := shows_joinTexts empty each separates_comma
      exact ⟨shows.neat.toWhole.listed, shows.within (within_between (by simp [Edged]; decide) "\x7d")⟩
  exact gives_return (exhibits listed rfl (own _ _))

/-- An index that is moved shows what it did. -/
theorem shows_shifted {heads : List BlockHead} {index amount : String} (shows : Shows heads index s)
    (distance : Int) (neat : Neat amount) (order : Order) :
    Shows heads (Site.shifted index distance amount false order) s := by
  have moved : ∀ sign ∈ ["+", "-"], Shows heads (index ++ spaced sign ++ amount) s := by
    intro sign among
    have sum := shows.joined (shows_nothing neat) (separates_sign sign (by revert among sign; decide))
    rwa [List.append_nil] at sum
  unfold Site.shifted
  extract_lets moved' turned inner
  have shown : Shows heads turned s := by
    simp only [turned, moved', Bool.false_eq_true, if_false]
    split_ifs
    · exact moved "+" (by simp)
    · exact moved "-" (by simp)
    · exact shows
  split_ifs
  · exact ⟨shown.neat.toWhole.parenthesized, shown.within (within_between (by simp [Edged]; decide) ")")⟩
  · exact shown

/-- An index shows its blocks, and of those in a numeral nothing can be seen. -/
theorem Site.ShowsAt.adjusted {name : String} {heads : List BlockHead} (showsAt : site.ShowsAt name heads)
    (delta : Int) (order : Order) :
    Gives (site.adjusted name delta false order) s (Shows heads) := by
  unfold Site.adjusted
  refine (gives_get trivial : Gives get s fun _ _ => True).bind fun pass t _ _ => ?_
  extract_lets oneBased distance asked
  have neat : Neat (if oneBased then "1" else "0") := by
    split_ifs
    · exact neat_int 1
    · exact neat_zero
  refine (showsAt.shows neat asked).bind fun index u _ shows => ?_
  by_cases numeral : isNumeral index
  · rw [if_pos numeral]
    have whole : Gives (wholeOf index) u fun _ _ => True := by
      unfold wholeOf
      split_ifs
      · exact Emission.gives_ofNumeral.imp fun _ _ _ _ => trivial
      · refine Emission.gives_ofNumeral.bind fun _ _ _ _ => ?_
        exact Emission.gives_ofCount.imp fun _ _ _ _ => trivial
    refine whole.bind fun n v later _ => ?_
    refine Emission.gives_writeWhole.imp ?_
    rintro text w precedes rfl
    refine ⟨neat_int _, fun head among => ?_⟩
    exact ((shows.later later).of_numeral numeral _ head among).later precedes
  · rw [if_neg numeral]
    refine Emission.gives_writeWhole.bind fun amount v later written => ?_
    subst written
    exact gives_return (shows_shifted (shows.later later) distance (neat_int _) order)

theorem exhibits_getIndex (named : BlockKind.ofName? site.head.type = some .getIndex)
    (showsAt : ∀ name, site.ShowsAt name (below name)) :
    Gives (Template.getIndex site) s (Exhibits site below) := by
  have own : ∀ t code, site.head.ShownIn t code :=
    fun t code => BlockHead.shownIn_of_kind named (by decide) (by decide)
  have ends : ((site.field "WHERE").isText "FIRST" || (site.field "WHERE").isText "LAST") = true →
      site.head.reads.flatMap below = below "VALUE" := by
    intro isEnd
    have takes : site.head.takesEnd = true := by simpa [BlockHead.takesEnd, named, Site.field] using isEnd
    simp [BlockHead.reads, named, takes, BlockKind.rows, BlockKind.shape]
  have both : ((site.field "WHERE").isText "FIRST" || (site.field "WHERE").isText "LAST") = false →
      site.head.reads.flatMap below = below "VALUE" ++ below "AT" := by
    intro inside
    have takes : site.head.takesEnd = false := by simpa [BlockHead.takesEnd, named, Site.field] using inside
    simp [BlockHead.reads_of_kind named takes, BlockKind.rows, BlockKind.shape]
  have nothing : Neat "\x7b\x7d" := whole_empty.listed
  unfold Template.getIndex
  extract_lets place
  refine ((showsAt "VALUE").shows nothing .unaryPostfix).bind fun items t _ shows => ?_
  by_cases first : place.isText "FIRST"
  · rw [if_pos first]
    exact gives_return
      (exhibits (shows.accessed .front)
      (ends (by rw [show (site.field "WHERE").isText "FIRST" = true from first]; rfl)) (own _ _))
  rw [if_neg first]
  by_cases last : place.isText "LAST"
  · rw [if_pos last]
    refine gives_return (exhibits (shows.accessed .back) (ends ?_) (own _ _))
    rw [show (site.field "WHERE").isText "LAST" = true from last, Bool.or_true]
  rw [if_neg last]
  have read := both (by
    rw [Bool.or_eq_false_iff]
    exact ⟨by simpa using first, by simpa using last⟩)
  by_cases fromEnd : place.isText "FROM_END"
  · rw [if_pos fromEnd]
    refine ((showsAt "AT").adjusted 1 .additive).bind fun index u later showsIndex => ?_
    have code : s!"{items}[{items}.size() - {index}]" =
        items ++ "[" ++ (items ++ ("." ++ Accessor.size.name ++ "()") ++ spaced "-" ++ index) ++ "]" := by
      show items ++ "[" ++ items ++ ".size() - " ++ index ++ "]" = _
      have size : ".size() - " = "." ++ Accessor.size.name ++ "()" ++ spaced "-" := rfl
      simp only [size, String.append_assoc]
    rw [code]
    have there := shows.later later
    have difference := (there.accessed .size).joined showsIndex (separates_sign "-" (by decide))
    have whole := there.indexed difference
    refine gives_return (exhibits ⟨whole.neat, fun head among => whole.shown head ?_⟩ read (own _ _))
    exact List.mem_append_right _ among
  · rw [if_neg fromEnd]
    refine ((showsAt "AT").adjusted 0 .none).bind fun index u later showsIndex => ?_
    exact gives_return (exhibits ((shows.later later).indexed showsIndex) read (own _ _))

/-- The template of a kind of values gives a code that shows the block and what it reads. -/
theorem exhibits_template {tight : Prop} (named : BlockKind.ofName? site.head.type = some kind)
    (isValue : kind.shape.isValue) (valid : site.head.Valid tight kind)
    (showsAt : ∀ name, site.ShowsAt name (below name)) :
    Gives (kind.template site) s (Exhibits site below) := by
  cases kind with
  | number => exact exhibits_number named
  | arithmetic => exact exhibits_arithmetic named showsAt
  | single => exact exhibits_single named showsAt
  | randomInt => exact exhibits_randomInt named showsAt
  | boolean => exact exhibits_boolean named
  | compare => exact exhibits_compare named showsAt
  | operation => exact exhibits_operation named showsAt
  | negate => exact exhibits_negate named showsAt
  | ternary => exact exhibits_ternary named showsAt
  | text => exact exhibits_text named
  | join => exact exhibits_join named valid showsAt
  | readVariable => exact exhibits_readVariable named
  | createList => exact exhibits_createList named valid showsAt
  | getIndex => exact exhibits_getIndex named showsAt
  | _ => cases isValue

end Templates

end BlockCompiler
