import BlockCompiler.Proofs.Coupling.Recounted
import BlockCompiler.Proofs.Emission.Moved

/-!
Elements of lists: their places mean the same from whichever number a program counts.
-/

namespace BlockCompiler

/-- The number from which the indices of a program count. -/
def Pass.base (pass : Pass) : Int := if pass.oneBased then 1 else 0

/-- The rows of a block that takes an element of a list: the list, and the place of the element. -/
def elementRows (list place : Stack BlockHead RowHead) : Rows BlockHead RowHead :=
  .cons ⟨.value, "VALUE"⟩ list (.cons ⟨.value, "AT"⟩ place .nil)

/-- A code takes the element of a list that an index means, where indices count from a base: from the start of
the list, the index is that many places ahead of what stands in the brackets; from the end, what stands there
is that far from the last place. -/
structure BlockHead.Takes (head : BlockHead) (items code : String) (index : Expr) (base : Int) : Prop where
  fromStart : (head.field "WHERE").isText "FROM_START" → ∃ place e, code = items ++ "[" ++ place ++ "]" ∧
    parse place = some e ∧ ∀ value, IsReading value → ∀ v : Int, value index = some (v : ℚ) →
      value e = some ((v - base : Int) : ℚ)
  fromEnd : (head.field "WHERE").isText "FROM_END" →
    ∃ place list e, code = items ++ "[" ++ items ++ ".size() - " ++ place ++ "]" ∧
    parse items = some list ∧ parse (items ++ ".size() - " ++ place) = some e ∧
    ∀ value, IsReading value → ∀ v n : Int, value index = some (v : ℚ) →
      value (.access list .size) = some (n : ℚ) →
      value e = some ((n - 1 - (v - base) : Int) : ℚ)

/-- A field that holds one word does not hold another. -/
theorem Json.not_isText {field : Json} {word other : String} (holds : field.isText word)
    (differs : word ≠ other) :
    ¬ field.isText other := by
  cases field with
  | text found =>
    obtain rfl : found = word := of_decide_eq_true holds
    simpa [Json.isText] using differs
  | _ => cases holds

section Places

variable {tight typed numeric : Prop} {site : Site} {list place : Pass → Option Expr} {s : Pass}

theorem Pass.distance_eq (pass : Pass) (delta : Int) : pass.distance delta = delta - pass.base := by
  unfold Pass.distance Pass.base
  split_ifs <;> omega

theorem Pass.Grows.number {s t : Pass} (grows : s.Grows t) : t.base = s.base := by
  rw [Pass.base, Pass.base, grows.base]

/-- The template for elements of lists gives the code that takes the element that is meant. -/
theorem emits_element (offers : site.OffersAt tight typed numeric "VALUE" list)
    (places : site.OffersAt tight typed True "AT" place) :
    Emits tight (Template.getIndex site) s fun output t => ∃ items code,
      output = some (.value code .unaryPostfix) ∧
      (∃ u, Yields (site.value "VALUE" .unaryPostfix "\x7b\x7d") s items u) ∧
      (typed → site.head.Takes items code ((place t).getD t.firstIndex) s.base) := by
  have nothing : IsLiteral tight "\x7b\x7d" .atomic (.list []) := isLiteral_list .nil
  unfold Template.getIndex
  extract_lets chosen
  refine (offers.fills nothing .unaryPostfix).traced.bind ?_
  rintro items t grows ⟨yields, fills⟩
  have moved : ∀ delta : Int, t.distance delta = delta - s.base := by
    intro delta
    rw [Pass.distance_eq, grows.number]
  split_ifs with first last fromEnd
  · exact emits_pure ⟨items, _, rfl, ⟨t, yields⟩,
      fun _ => ⟨fun here => absurd here (Json.not_isText first (by decide)),
      fun here => absurd here (Json.not_isText first (by decide))⟩⟩
  · exact emits_pure ⟨items, _, rfl, ⟨t, yields⟩,
      fun _ => ⟨fun here => absurd here (Json.not_isText last (by decide)),
      fun here => absurd here (Json.not_isText last (by decide))⟩⟩
  · refine (places.moves_near trivial ⟨by decide, by decide⟩ false .additive).bind ?_
    rintro index u later ⟨e, meant, moves⟩
    obtain ⟨level, f, writes, fits, worth⟩ := moves.written
    obtain ⟨listed, inner, writesList, fitsList, _⟩ := fills
    have size := writesList.access .size (le_of_fits fitsList)
    have difference := Writes.binary .subtract size (by decide) writes (lt_of_fits (fits (by decide)) rfl)
    obtain ⟨l, parsedList, alike, _⟩ := writesList.parses (show Leads "".toList [] from leads_nil)
    obtain ⟨g, parsed, same⟩ := difference.exists_worth
    rw [String.empty_append] at parsedList
    have inside : items ++ ("." ++ Accessor.size.name ++ "()") ++ spaced BinaryOp.subtract.sign ++ index =
        items ++ ".size() - " ++ index := by
      have sign : ".size() - " = "." ++ Accessor.size.name ++ "()" ++ spaced BinaryOp.subtract.sign := rfl
      simp only [sign, String.append_assoc]
    rw [inside] at parsed
    refine emits_pure ⟨items, _, rfl, ⟨t, yields⟩,
      fun isTyped => ⟨fun here => absurd here (Json.not_isText fromEnd (by decide)), fun _ => ?_⟩⟩
    refine ⟨index, l, g, rfl, parsedList, parsed, fun value reading v n known sized => ?_⟩
    rw [meant isTyped u .refl] at known
    have sized : value (.access listed .size) = some (n : ℚ) :=
      (reading.alike (alike.access .size)).symm.trans sized
    rw [same value reading, reading.difference sized (worth value reading v known), moved, if_neg (by simp)]
    push_cast
    ring_nf
  · refine (places.moves_near trivial ⟨by decide, by decide⟩ false .none).bind ?_
    rintro index u later ⟨e, meant, moves⟩
    obtain ⟨level, f, writes, _, worth⟩ := moves.written
    obtain ⟨g, parsed, same⟩ := writes.exists_worth
    refine emits_pure ⟨items, _, rfl, ⟨t, yields⟩,
      fun isTyped => ⟨fun _ => ?_, fun here => absurd here fromEnd⟩⟩
    refine ⟨index, g, rfl, parsed, fun value reading v known => ?_⟩
    rw [meant isTyped u .refl] at known
    rw [same value reading, worth value reading v known, moved, if_neg (by simp)]
    ring_nf

end Places

/-- The whole number that a number is, however it is kept. -/
def Number.whole? : Number → Option Int
  | .int value => some value
  | .float value => if value.isWhole then value.truncate? else none

/-- A block is the literal of a whole number that is plugged in. -/
structure BlockHead.IsWhole (head : BlockHead) (value : Int) : Prop where
  kind : BlockKind.ofName? head.type = some .number
  enabled : head.disabled = false
  inline : head.inline
  number : ∃ n, numberIn (head.field "NUM") = .ok n ∧ n.whole? = some value
  short : IsWritable value

section Literals

variable {emitter : Emitter} {number : BlockHead} {k : Int} {s : Pass}

theorem numberLiteral_of_whole {n : Number} (whole : n.whole? = some k) :
    numberLiteral n = wholeLiteral k := by
  cases n with
  | int value =>
    obtain rfl : value = k := Option.some.inj whole
    rfl
  | float value =>
    rw [Number.whole?] at whole
    cases value with
    | finite negative mantissa exponent => simp only [numberLiteral, whole]
    | nan => cases whole
    | infinite negative => cases whole

theorem writeWhole_of_writable (short : IsWritable k) : writeWhole k = .ok (toString k) := by
  rw [writeWhole, if_neg (Nat.not_le.mpr short)]

theorem readWhole_toString (short : IsWritable k) : readWhole (toString k) = .ok k := by
  rw [toString_int, readWhole_literal _ short, Binary64.signed]
  congr 1
  by_cases low : k < 0
  · rw [if_pos (by simpa using low)]
    omega
  · rw [if_neg (by simpa using low)]
    omega

theorem isWholeNumeral_toString (k : Int) : isWholeNumeral (toString k) := by
  rw [toString_int]
  exact isWholeNumeral_literal _ _

/-- The code of a number that is plugged in is its literal. -/
theorem yields_number (templates : emitter.templates = knownTemplates)
    (kind : BlockKind.ofName? number.type = some .number) (enabled : number.disabled = false)
    (inline : number.inline) {n : Number} (found : numberIn (number.field "NUM") = .ok n) {code : String}
    {level : Order} (literal : numberLiteral n = pure (some (.value code level))) (s : Pass) :
    Yields (emitter.emit (.block number .nil .empty)) s (.value code level) s := by
  have template : ∀ site : Site, site.head = number →
      Template.number site = pure (some (.value code level)) := by
    rintro site rfl
    show Emission.ofNumeral (numberIn (site.head.field "NUM")) >>= numberLiteral = _
    rw [found, ← literal]
    rfl
  rw [Emitter.emit, enabled, if_neg (by simp), emitSite_eq, Emitter.emit]
  unfold Emitter.templateOf
  rw [templates, get?_knownTemplates, kind]
  simp only [Option.map_some, pure_bind, BlockKind.template]
  rw [template _ rfl, pure_bind]
  have finished : ∀ code, Site.finish ⟨number, emitter.sockets .nil, pure (.statements "")⟩ code =
      pure code := by
    intro code
    rw [Coupling.finish_alone rfl, Site.comments, if_pos inline, String.empty_append]
  simp only [finished, pure_bind]
  exact yields_pure.mpr ⟨rfl, rfl⟩

section Plugged

variable {head : BlockHead} {rows : Rows BlockHead RowHead} {below : Emission Output} {name code : String}
  {level : Order} {delta : Int} {negate : Bool} {order : Order}

/-- A code that is plugged in and does not change the pass is the value of its socket. -/
theorem yields_value (plugged : rows.at name = .block number .nil .empty)
    (yields : Yields (emitter.emit (.block number .nil .empty)) s (.value code level) s)
    (filled : code ≠ "") (asked : Order) (default : String) :
    Yields (Site.value ⟨head, emitter.sockets rows, below⟩ name asked default) s
    (placed asked level code) s := by
  rw [value_of_block plugged, plugged]
  refine yields_bind.mpr ⟨_, s, yields, ?_⟩
  rw [usedAs_value filled]
  exact yields_pure.mpr ⟨rfl, rfl⟩

/-- A numeral that is plugged in and fits is moved at once, if what is written then is short enough. -/
theorem runs_adjusted_numeral (plugged : rows.at name = .block number .nil .empty)
    (yields : Yields (emitter.emit (.block number .nil .empty)) s (.value code level) s)
    (fits : (order.forIndex (s.distance delta) negate).needsParens level = false) (numeral : isNumeral code)
    {whole : Int} (reads : Yields (Site.wholeOf code) s whole s) {moved : Int}
    (shape : (if negate then -(whole + s.distance delta) else whole + s.distance delta) = moved) :
    Runs (fun error => ¬ IsWritable moved ∧ error = .numeral .tooLongToWrite)
      (Site.adjusted ⟨head, emitter.sockets rows, below⟩ name delta negate order) s fun text t =>
        text = toString moved ∧ t = s := by
  have filled : code ≠ "" := by
    rintro rfl
    cases numeral
  have value := fun default =>
    @yields_value emitter number s head rows below name code level plugged yields filled
    (order.forIndex (s.distance delta) negate) default
  rw [placed, if_neg (by simp [fits])] at value
  unfold Site.adjusted
  refine runs_get_bind ?_
  extract_lets oneBased distance asked
  refine runs_after (value _) ?_
  rw [if_pos numeral]
  refine runs_after reads ?_
  extract_lets sum
  have same : (if negate then -sum else sum) = moved := shape
  rw [same, writeWhole]
  split_ifs with long
  · exact runs_throw ⟨Nat.not_lt.mpr long, rfl⟩
  · exact runs_pure ⟨rfl, rfl⟩

end Plugged

/-- The code of the literal of a whole number. -/
theorem yields_whole (templates : emitter.templates = knownTemplates) (isWhole : number.IsWhole k)
    (s : Pass) :
    Yields (emitter.emit (.block number .nil .empty)) s (.value (toString k) (literalOrder (k < 0))) s := by
  obtain ⟨n, found, whole⟩ := isWhole.number
  have literal : wholeLiteral k = pure (some (.value (toString k) (literalOrder (k < 0)))) := by
    have order : (if 0 ≤ k then Order.atomic else .unaryPrefix) = literalOrder (k < 0) := by
      unfold literalOrder
      by_cases low : k < 0
      · rw [if_neg (by omega), if_pos (by simpa using low)]
      · rw [if_pos (by omega), if_neg (by simpa using low)]
    rw [wholeLiteral, writeWhole_of_writable isWhole.short, order]
    rfl
  exact yields_number templates isWhole.kind isWhole.enabled isWhole.inline found
    ((numberLiteral_of_whole whole).trans literal) s

/-- The literal of a whole number is moved at once. -/
theorem yields_adjusted_whole (templates : emitter.templates = knownTemplates) {head : BlockHead}
    {rows : Rows BlockHead RowHead} {below : Emission Output} {name : String}
    (plugged : rows.at name = .block number .nil .empty) (isWhole : number.IsWhole k) {delta : Int}
    {order : Order} (loose : (order.forIndex (s.distance delta) false).needsParens .unaryPrefix = false)
    (short : IsWritable (k + s.distance delta)) :
    Yields (Site.adjusted ⟨head, emitter.sockets rows, below⟩ name delta false order) s
    (toString (k + s.distance delta)) s := by
  have numeral := isWholeNumeral_toString k
  have reads : Yields (Site.wholeOf (toString k)) s k s := by
    rw [Site.wholeOf, if_pos numeral, readWhole_toString isWhole.short]
    exact yields_pure.mpr ⟨rfl, rfl⟩
  have runs := @runs_adjusted_numeral emitter number s head rows below name _ _ delta false order plugged
    (yields_whole templates isWhole s) (literalOrder_fits loose _)
      (isNumeral_of_isWholeNumeral numeral) _ reads _ rfl
  obtain ⟨_, _, yields, rfl, rfl⟩ := runs.exists_yields fun error excused => excused.1 short
  exact yields

end Literals

section Bases

variable {emitter : Emitter} {known : Bool} {tight : Prop} {head number other : BlockHead}
  {list : Stack BlockHead RowHead} {k : Int}

open Coupling

/-- The site of a block that takes an element of a list, with nothing below it. -/
def elementSite (emitter : Emitter) (head : BlockHead) (list place : Stack BlockHead RowHead) : Site :=
  ⟨head, emitter.sockets (elementRows list place), pure (.statements "")⟩

/-- A literal in a pass that counts from one and the literal before it in one that counts from zero are moved
alike. -/
theorem agree_places (templates : emitter.templates = knownTemplates) (here : number.IsWhole k)
    (there : other.IsWhole (k - 1)) {delta : Int} {order : Order}
    (loose : order.needsParens .unaryPrefix = false) (short : IsWritable (k - 1 + delta)) :
    recounting.Agree (fun a b => a = b)
      ((elementSite emitter head list (.block number .nil .empty)).adjusted "AT" delta false order)
      ((elementSite emitter head list (.block other .nil .empty)).adjusted "AT" delta false order) := by
  have looser : ∀ distance, (order.forIndex distance false).needsParens .unaryPrefix = false := by
    intro distance
    rw [Order.forIndex, if_neg (by simp : ¬ false = true)]
    split_ifs
    · decide
    · exact loose
  intro s t passes
  have fromOne : s.distance delta = delta - 1 := if_pos passes.keeps
  have fromZero : t.distance delta = delta := if_neg (by simp [passes.oneBased, recounting])
  have same : k + (delta - 1) = k - 1 + delta := by ring
  have one :
      Yields ((elementSite emitter head list (.block number .nil .empty)).adjusted "AT" delta false order) s
      (toString (k + s.distance delta)) s :=
        yields_adjusted_whole templates rfl here (looser _) (by rwa [fromOne, same])
  have two :
      Yields ((elementSite emitter head list (.block other .nil .empty)).adjusted "AT" delta false order) t
      (toString (k - 1 + t.distance delta)) t :=
        yields_adjusted_whole templates rfl there (looser _) (by rwa [fromZero])
  rw [fromOne, same] at one
  rw [fromZero] at two
  rw [one, two]
  exact .done passes rfl

/-- The template for elements of lists gives the same for a literal in a pass that counts from one and the
literal before it in a pass that counts from zero. -/
theorem agree_elements (templates : emitter.templates = knownTemplates) (here : number.IsWhole k)
    (there : other.IsWhole (k - 1)) (ready : list.Ready known tight) (isOperand : list.IsOperand)
    (none : list.TakesNoElement) :
    recounting.Agree (fun a b => a = b)
      (Template.getIndex (elementSite emitter head list (.block number .nil .empty)))
      (Template.getIndex (elementSite emitter head list (.block other .nil .empty))) := by
  have lists : ∀ place, Site.socket? (elementSite emitter head list place) "VALUE" =
      some ⟨.value, "VALUE", list.head?.map (·.type), list.comments, emitter.emit list⟩ := by
    intro place
    rw [Site.socket?, elementSite, elementRows, Emitter.sockets]
    rfl
  have socket :
      recounting.Sockets ⟨.value, "VALUE", list.head?.map (·.type), list.comments, emitter.emit list⟩
      ⟨.value, "VALUE", list.head?.map (·.type), list.comments, emitter.emit list⟩ := by
    refine ⟨rfl, rfl, fun _ => rfl, agree_recounted templates list ready isOperand none, fun _ _ => rfl, id,
      fun empty => ?_⟩
    cases list with
    | empty => exact Emitter.emit.eq_1 emitter
    | block => cases empty
  have expressions : ∀ code,
      recounting.Agree (fun a b => a = b) (expression code .unaryPostfix) (expression code .unaryPostfix) :=
    fun _ => agree_pure rfl
  unfold Template.getIndex
  simp only [Site.value_of_socket (lists _)]
  refine (socket.use .unaryPostfix "{}").bind ?_
  rintro items _ rfl
  have field : ∀ place, Site.field (elementSite emitter head list place) "WHERE" = head.field "WHERE" :=
    fun _ => rfl
  simp only [field]
  split_ifs
  · exact expressions _
  · exact expressions _
  · refine (agree_places templates here there (by decide) (by simpa using here.short)).bind ?_
    rintro index _ rfl
    exact expressions _
  · refine (agree_places templates here there (by decide) (by simpa using there.short)).bind ?_
    rintro index _ rfl
    exact expressions _

/-- The code of the element at a literal place in a pass that counts from one is that of the element at the
place before it in a pass that counts from zero. -/
theorem recounts_element (templates : emitter.templates = knownTemplates)
    (named : BlockKind.ofName? head.type = some .getIndex) (here : number.IsWhole k)
    (there : other.IsWhole (k - 1)) (comment : other.comment = number.comment)
    (ready : list.Ready known tight) (isOperand : list.IsOperand) (none : list.TakesNoElement) :
    recounting.Agree (fun a b => a = b)
      (emitter.emit (.block head (elementRows list (.block number .nil .empty)) .empty))
      (emitter.emit (.block head (elementRows list (.block other .nil .empty)) .empty)) := by
  have plugged : ∀ place : BlockHead, (Stack.block place .nil .empty : Stack BlockHead RowHead).comments =
      place.comment.toList := by
    intro place
    cases written : place.comment <;> simp [Stack.comments, Stack.heads, Rows.heads, written]
  have finished : ∀ place : BlockHead, place.comment = number.comment → ∀ code,
      Site.finish ⟨head, emitter.sockets (elementRows list (.block place .nil .empty)),
        pure (.statements "")⟩ code =
        pure ((elementSite emitter head list (.block number .nil .empty)).comments ++ code) := by
    intro place same code
    rw [finish_alone rfl]
    simp only [Site.comments, Site.ownComment, elementSite, elementRows, Emitter.sockets, List.map_cons,
      Site.liftedComments,
      plugged, same]
  have template : emitter.templateOf head.type = pure Template.getIndex := by
    unfold Emitter.templateOf
    rw [templates, get?_knownTemplates, named]
    rfl
  rw [Emitter.emit.eq_2, Emitter.emit.eq_2, Emitter.emit]
  by_cases disabled : head.disabled
  · rw [if_pos disabled, if_pos disabled]
    exact agree_pure rfl
  rw [if_neg disabled, if_neg disabled, emitSite_eq, emitSite_eq]
  simp only [template, pure_bind]
  refine (agree_elements templates here there ready isOperand none).bind ?_
  rintro output _ rfl
  cases output with
  | none => exact agree_pure rfl
  | some output =>
    cases output <;> simp only [finished number rfl, finished other comment, pure_bind] <;>
      exact agree_pure rfl

end Bases

/-- The rows of a block that takes an element of a list. -/
theorem Rows.Ready.elementRows {known : Bool} {tight : Prop} {rows : Rows BlockHead RowHead}
    {mutation : Table Json} (ready : rows.Ready known tight (BlockKind.rows .getIndex mutation)) :
    rows = BlockCompiler.elementRows (rows.at "VALUE") (rows.at "AT") := by
  have specs : BlockKind.rows .getIndex mutation =
      [("VALUE", .value, listCheck), ("AT", .value, numberCheck)] := rfl
  rw [specs] at ready
  match rows with
  | .cons row list rest =>
    obtain ⟨_, _, shape, rfl, _, _, later⟩ := ready
    obtain ⟨rfl, rfl⟩ := List.cons.inj shape
    match rest with
    | .cons row place rest =>
      obtain ⟨_, _, shape, rfl, _, _, last⟩ := later
      obtain ⟨rfl, rfl⟩ := List.cons.inj shape
      match rest with
      | .nil => rfl

/-- The element of a list is the one that is meant, from whichever number the program counts: from the start
of the list, the place in the brackets is the index less the number from which indices count, and from its
end, it is that far from the last place. An empty socket means the first index. The code for a literal index
in a program that counts from one is the code for the literal before it in a program that counts from zero,
unless the list itself is found by taking elements. -/
theorem Emitter.emit_element {emitter : Emitter} (templates : emitter.templates = knownTemplates)
    {known : Bool} (strict : emitter.strict → known) {tight : Prop} {head : BlockHead}
    {rows : Rows BlockHead RowHead} (named : BlockKind.ofName? head.type = some .getIndex)
    (enabled : head.disabled = false) (ready : (Stack.block head rows .empty).Ready known tight)
    (meets : (Stack.block head rows .empty).Meets none) {before : Pass} (sound : before.Sound) {site : Site}
    (here : emitter.site? (.block head rows .empty) = some site) :
    Runs (fun error => ¬ tight ∧ error = .numeral .tooLongToWrite)
        (emitter.emit (.block head rows .empty)) before
        (fun output after => ∃ items code, output = .value (site.comments ++ code) .unaryPostfix ∧
          (∃ middle, Yields (site.value "VALUE" .unaryPostfix "{}") before items middle) ∧
          head.Takes items code (rows.index after) before.base ∧
          (rows.at "AT" = .empty → ∀ value, IsReading value →
          value (rows.index after) = some (before.base : ℚ))) ∧
      (before.oneBased → (rows.at "VALUE").TakesNoElement →
        ∀ (k : Int) (number other : BlockHead), number.IsWhole k →
        other.IsWhole (k - 1) → other.comment = number.comment →
        Recounts
          (emitter.emit (.block head (elementRows (rows.at "VALUE") (.block number .nil .empty)) .empty))
          (emitter.emit (.block head (elementRows (rows.at "VALUE") (.block other .nil .empty)) .empty))
          before) := by
  obtain rfl : (⟨head, emitter.sockets rows, emitter.emit .empty⟩ : Site) = site := Option.some.inj here
  have readyHere := ready.1
  rw [named] at readyHere
  have readyRows := readyHere.2
  have meetsRows := meets.2 _ named
  have specs : ∀ name spec, (BlockKind.rows .getIndex head.mutation).find? (·.1 = name) = some spec →
      spec.2.1 = .value :=
    fun name spec found => @rows_of_value .getIndex rfl _ spec (List.mem_of_find?_eq_some found)
  have offers : ∀ name, Site.OffersAt tight (rows.Meets (BlockKind.rows .getIndex head.mutation))
      (BlockKind.AsksNumber .getIndex name)
      ⟨head, emitter.sockets rows, emitter.emit .empty⟩ name (rows.operand? · name) :=
    fun name => offersAt_row (specs name) readyRows (emits_operands templates strict rows)
  have asks : BlockKind.AsksNumber .getIndex "AT" := List.mem_cons_of_mem _ (List.mem_singleton.mpr rfl)
  constructor
  · have emits := emits_element (offers "VALUE") ((offers "AT").mono id fun _ _ => asks) (s := before)
    have template : emitter.templateOf head.type = pure Template.getIndex := by
      unfold Emitter.templateOf
      rw [templates, get?_knownTemplates, named]
      rfl
    rw [Emitter.emit.eq_2, enabled, if_neg (by simp), emitSite_eq]
    simp only [template, pure_bind]
    refine (emits sound).bind ?_
    rintro output after ⟨_, grows, items, code, rfl, middle, takes⟩
    have finished : Site.finish ⟨head, emitter.sockets rows, emitter.emit .empty⟩ code =
        pure (Site.comments ⟨head, emitter.sockets rows, emitter.emit .empty⟩ ++ code) :=
      Coupling.finish_alone (Emitter.emit.eq_1 emitter) code
    simp only [finished, pure_bind]
    refine runs_pure ⟨items, code, rfl, middle, takes meetsRows, fun empty value reading => ?_⟩
    have first : rows.index after = after.firstIndex := by
      rw [Rows.index, Rows.operand?_eq, empty, Stack.tree?, Option.getD_none]
    rw [first, reading.firstIndex, Pass.base, grows.base]
    split_ifs <;> simp
  · intro oneBased none k number other isWhole isBefore comment
    rw [readyRows.elementRows] at readyRows
    obtain ⟨_, _, shape, _, operand, readyList, _⟩ := readyRows
    obtain ⟨rfl, rfl⟩ := List.cons.inj shape
    exact (recounts_element templates named isWhole isBefore comment readyList (operand rfl) none).recounts
      sound oneBased

/-- The second element from the end of an empty list, in a program that counts from one, and the first in a
program that counts from zero. -/
theorem Emitter.emit_element_second :
    let element : BlockHead :=
      { type := "lists_getIndex", fields := [("WHERE", .text "FROM_END")], hasOutput := true,
        inline := false }
    let number (n : Int) : BlockHead :=
      { type := "math_number", fields := [("NUM", .number (.int n))], hasOutput := true, inline := true }
    let rows (n : Int) : Rows BlockHead RowHead := elementRows .empty (.block (number n) .nil .empty)
    let emitter : Emitter := {}
    let ws : Workspace := { oneBased := true }
    ∃ site, emitter.site? (.block element (rows 2) .empty) = some site ∧
      Runs (fun error => ¬ True ∧ error = .numeral .tooLongToWrite)
        (emitter.emit (.block element (rows 2) .empty)) (emitter.start ws)
        (fun output after => ∃ items code, output = .value (site.comments ++ code) .unaryPostfix ∧
          element.Takes items code ((rows 2).index after) 1) ∧
      Recounts (emitter.emit (.block element (rows 2) .empty)) (emitter.emit (.block element (rows 1) .empty))
        (emitter.start ws) := by
  intro element number rows emitter ws
  have few : ∀ n : Int, n.natAbs ≤ 2 → n.natAbs < tenTo (digitLimit - 1) ∧ IsWritable n := by
    intro n small
    have below : ∀ digits, 0 < digits → n.natAbs < tenTo digits := fun digits positive =>
      Nat.lt_of_lt_of_le (Nat.lt_of_le_of_lt small (show 2 < tenTo 1 by decide)) (tenTo_mono positive)
    exact ⟨below _ (by decide), below _ (by decide)⟩
  have second : (number 2).IsWhole 2 := ⟨rfl, rfl, rfl, ⟨.int 2, rfl, rfl⟩, (few 2 (by decide)).2⟩
  have first : (number 1).IsWhole (2 - 1) := ⟨rfl, rfl, rfl, ⟨.int 1, rfl, rfl⟩, (few 1 (by decide)).2⟩
  have void : ∀ n, numberIn (element.field "NUM") = .ok n → n.Short := by
    intro n found whole same
    cases found
    cases same
    exact (few 0 (by decide)).1
  have short : ∀ n, numberIn ((number 2).field "NUM") = .ok n → n.Short := by
    intro n found whole same
    cases found
    cases same
    exact (few 2 (by decide)).1
  have readyNumber : (Stack.block (number 2) .nil .empty).Ready true True :=
    ⟨⟨⟨⟨"", rfl⟩, ⟨"", rfl⟩, by decide, fun _ => short⟩, rfl⟩, trivial⟩
  have ready : (Stack.block element (rows 2) .empty).Ready true True :=
    ⟨⟨⟨⟨"", rfl⟩, ⟨"", rfl⟩, by decide, fun _ => void⟩, _, _, rfl, rfl, fun _ => trivial, trivial,
      _, _, rfl, rfl,
      fun _ => ⟨by rfl, by rfl, rfl⟩, readyNumber, rfl⟩, trivial⟩
  have named : BlockKind.ofName? element.type = some .getIndex := by decide
  have meets : (Stack.block element (rows 2) .empty).Meets none := by
    refine ⟨by rfl, fun kind known => ?_⟩
    cases named.symm.trans known
    refine ⟨fun _ _ => trivial, fun spec among => ?_, trivial⟩
    cases among
    exact ⟨by rfl, fun kind known => trivial⟩
  obtain ⟨runs, recounts⟩ :=
    emitter.emit_element rfl (fun _ => rfl) named rfl ready meets (emitter.sound_start ws) rfl
  refine ⟨_, rfl, runs.imp ?_, recounts rfl ?_ 2 _ _ second first rfl⟩
  · rintro output after ⟨items, code, shape, _, takes, _⟩
    exact ⟨items, code, shape, takes⟩
  · intro head among
    cases among

end BlockCompiler
