import BlockCompiler.Proofs.Coupling.Passes
import BlockCompiler.Proofs.Emission.Listing

/-!
Two sites side by side: what is read off them is the same, up to comments in the code of statements.
-/

namespace BlockCompiler

namespace Coupling

variable (c : Coupling)

/-- Two outputs are the same statements, up to comments. -/
def Bodies (output other : Output) : Prop :=
  ∃ code bare, output = .statements code ∧ other = .statements bare ∧ SameText c.extra code bare

/-- Two outputs of what is plugged in correspond. -/
def Plugged (output other : Output) : Prop := output = other ∨ c.Bodies output other

/-- Two sockets are the same up to comments. Where blocks are left out, the second may be vacant when the
first is not. -/
structure Sockets (socket other : Socket) : Prop where
  name : other.name = socket.name
  kind : other.kind = socket.kind
  comments : socket.kind = .value → other.comments = if c.extra then [] else socket.comments
  code : c.Agree c.Plugged socket.code other.code
  type : c.skips = false → c.retypes = false → other.type? = socket.type?
  empty : socket.type? = none → other.type? = none
  vacant : other.type? = none → other.code = pure (.statements "")

/-- Two sites are the same up to comments. Only statements are followed by others. -/
structure Sites (site other : Site) : Prop where
  heads : c.Heads site.head other.head
  sockets : List.Forall₂ c.Sockets site.sockets other.sockets
  below : c.Agree c.Bodies site.below other.below
  alone : site.head.isStatement = false → site.below = pure (.statements "") ∧
    other.below = pure (.statements "")

/-- What two templates give corresponds: the same value, or statements that are the same up to comments.
Statements are whole lines, of which the first is not blank. -/
inductive Gives (isStatement : Bool) : Option Output → Option Output → Prop
  | value (code : String) (order : Order) (plain : isStatement = false) :
      Gives isStatement (some (.value code order)) (some (.value code order))
  | statements {code bare : String} (told : isStatement = true) (same : SameText c.extra code bare)
      (filled : Filled bare.toList) (whole : startsLine true bare.toList) :
      Gives isStatement (some (.statements code)) (some (.statements bare))
  | none (plain : isStatement = false) : Gives isStatement none none

end Coupling

/-- The code of what is in a socket, used as an expression. -/
def Socket.use (socket : Socket) (order : Order) (default : String) : Emission String :=
  match socket.type? with
  | some type => socket.code >>= usedAs type order default
  | none => pure default

theorem Site.value_of_socket {site : Site} {name : String} {socket : Socket}
    (found : site.socket? name = some socket) (order : Order) (default : String) :
    site.value name order default = socket.use order default := by
  obtain ⟨kind, other, type?, comments, code⟩ := socket
  unfold Site.value Socket.use
  rw [found]
  cases type? <;> rfl

theorem Site.value_of_none {site : Site} {name : String} (none : site.socket? name = none) (order : Order)
    (default : String) :
    site.value name order default = pure default := by
  unfold Site.value
  rw [none]

namespace Coupling

section Access

variable {c : Coupling} {site other : Site}

theorem Sites.alike (sites : c.Sites site other) : site.head.Alike c.extra c.retypes other.head :=
  c.alike sites.heads

theorem Sites.field (sites : c.Sites site other) (name : String) : other.field name = site.field name :=
  sites.alike.field name

/-- The sockets of a name correspond. -/
theorem Sites.socket? (sites : c.Sites site other) (name : String) :
    Option.Rel c.Sockets (site.socket? name) (other.socket? name) := by
  have related := sites.sockets
  unfold Site.socket?
  generalize site.sockets = sockets at related
  generalize other.sockets = others at related
  induction related with
  | nil => exact .none
  | @cons socket there _ _ first _ ih =>
    by_cases named : socket.name = name
    · rw [List.find?_cons_of_pos (by simpa using named),
        List.find?_cons_of_pos (by simpa [first.name] using named)]
      exact .some first
    · rw [List.find?_cons_of_neg (by simpa using named),
        List.find?_cons_of_neg (by simpa [first.name] using named)]
      exact ih

theorem Sites.socket?_isSome (sites : c.Sites site other) (name : String) :
    (other.socket? name).isSome = (site.socket? name).isSome := by
  have related := sites.socket? name
  generalize site.socket? name = one at related
  generalize other.socket? name = another at related
  cases related <;> rfl

theorem Sites.armsOf (sites : c.Sites site other) : Template.armsOf other = Template.armsOf site := by
  unfold Template.armsOf
  rw [sites.sockets.length_eq]
  simp only [sites.socket?_isSome]

theorem agree_usedAs {output bare : Output} (plugged : c.Plugged output bare) {type other : String}
    (types : c.skips = false → c.retypes = false → other = type) (order : Order) (default : String) :
    c.Agree (fun a b => a = b) (usedAs type order default output) (usedAs other order default bare) := by
  have refused : ∀ type text : String, text ≠ "" →
      usedAs type order default (.statements text) = throw (.notAValue type) := by
    intro type text filled
    unfold usedAs
    split
    · rename_i none
      cases none
      exact absurd rfl filled
    · rfl
    · rename_i none
      cases none
    · rename_i none
      cases none
  have bodies : ∀ code plain : String, (code = "" ↔ plain = "") →
      c.Agree (fun a b => a = b) (usedAs type order default (.statements code))
        (usedAs other order default (.statements plain)) := by
    intro code plain both
    by_cases empty : code = ""
    · obtain rfl := empty
      obtain rfl := both.mp rfl
      exact agree_pure rfl
    · rw [refused _ _ empty, refused _ _ (both.not.mp empty)]
      exact agree_errors fun all exact => by rw [types all exact]
  rcases plugged with rfl | ⟨code, plain, rfl, rfl, same⟩
  · cases output with
    | statements code => exact bodies code code Iff.rfl
    | value code inner =>
      by_cases empty : code = ""
      · obtain rfl := empty
        exact agree_pure rfl
      · rw [usedAs_value empty, usedAs_value empty]
        exact agree_pure rfl
  · exact bodies code plain (by simpa using same.nil_iff)

/-- What is in two corresponding sockets is the same expression. -/
theorem Sockets.use {socket bare : Socket} (same : c.Sockets socket bare) (order : Order) (default : String) :
    c.Agree (fun a b => a = b) (socket.use order default) (bare.use order default) := by
  unfold Socket.use
  cases there : bare.type? with
  | none =>
    cases here : socket.type? with
    | none => exact agree_pure rfl
    | some type =>
      -- The second socket is vacant, so that the first gives no code.
      have code := same.code
      rw [same.vacant there] at code
      have vacant : (pure default : Emission String) =
          (pure (Output.statements "") : Emission Output) >>= usedAs type order default := rfl
      dsimp only
      rw [vacant]
      refine code.of_pure.bind ?_
      rintro output _ ⟨rfl, plugged⟩
      exact agree_usedAs plugged (fun _ _ => rfl) order default
  | some other =>
    cases here : socket.type? with
    | none =>
      rw [same.empty here] at there
      cases there
    | some type =>
      refine same.code.bind fun _ _ plugged => agree_usedAs plugged (fun all exact => ?_) order default
      have types := same.type all exact
      rw [here, there] at types
      exact Option.some.inj types

/-- The code in a socket of values is the same. -/
theorem Sites.value (sites : c.Sites site other) (name : String) (order : Order) (default : String) :
    c.Agree (fun a b => a = b) (site.value name order default) (other.value name order default) := by
  have related := sites.socket? name
  cases found : site.socket? name with
  | none =>
    rw [found] at related
    cases there : other.socket? name with
    | none =>
      rw [Site.value_of_none found, Site.value_of_none there]
      exact agree_pure rfl
    | some socket =>
      rw [there] at related
      cases related
  | some socket =>
    rw [found] at related
    cases there : other.socket? name with
    | none =>
      rw [there] at related
      cases related
    | some bare =>
      rw [there] at related
      cases related with
      | some same =>
        rw [Site.value_of_socket found, Site.value_of_socket there]
        exact same.use order default

theorem Sites.values (sites : c.Sites site other) (stem : String) (count : Nat) (order : Order)
    (default : String) :
    c.Agree (fun a b => a = b) (site.values stem count order default)
    (other.values stem count order default) := by
  have numbers : List.Forall₂ (fun i j : Nat => i = j) (List.range count) (List.range count) :=
    List.forall₂_refl _
  refine (agree_mapM numbers fun i _ same => ?_).imp fun _ _ same => List.forall₂_eq_eq_eq ▸ same
  subst same
  exact sites.value (stem ++ toString i) order default

/-- The indented code in an opening is the same up to comments. -/
theorem Sites.statements (sites : c.Sites site other) (name : String) :
    c.Agree (SameText c.extra) (site.statements name) (other.statements name) := by
  have related := sites.socket? name
  unfold Site.statements
  generalize site.socket? name = one at related
  generalize other.socket? name = another at related
  cases related with
  | none => exact agree_pure (.refl _)
  | some same =>
    refine same.code.bind fun output bare plugged => agree_pure ?_
    have codes : SameText c.extra output.code bare.code := by
      rcases plugged with rfl | ⟨code, plain, rfl, rfl, same⟩
      · exact .refl _
      · exact same
    have both : output.code = "" ↔ bare.code = "" := by simpa using codes.nil_iff
    by_cases empty : output.code = ""
    · rw [if_pos empty, if_pos (both.mp empty)]
      exact .refl _
    · rw [if_neg empty, if_neg (both.not.mp empty)]
      have spaces : ∀ c ∈ indent.toList, c = ' ' := by simp [indent]
      have led := codes.led spaces
      simpa [SameText, leadLines] using led

theorem Sites.getVariable (sites : c.Sites site other) :
    c.Agree (fun a b => a = b ∧ IsName a.toList) site.getVariable other.getVariable := by
  unfold Site.getVariable
  rw [sites.field]
  refine (agree_textOf _).bind ?_
  rintro name _ rfl
  exact agree_getName name .variable

theorem agree_wholeOf (numeral : String) :
    c.Agree (fun a b => a = b) (Site.wholeOf numeral) (Site.wholeOf numeral) := by
  unfold Site.wholeOf
  split_ifs
  · exact agree_ofNumeral _
  · refine (agree_ofNumeral _).bind ?_
    rintro value _ rfl
    exact agree_ofCount _

theorem Sites.adjusted (sites : c.Sites site other) (alike : c.counts = id) (name : String) (delta : Int)
    (negate : Bool) (order : Order) :
    c.Agree (fun a b => a = b) (site.adjusted name delta negate order)
    (other.adjusted name delta negate order) := by
  unfold Site.adjusted
  refine agree_get.bind fun s t base => ?_
  rw [base, alike]
  dsimp only [id]
  refine (sites.value name _ _).bind ?_
  rintro index _ rfl
  by_cases numeral : isNumeral index
  · rw [if_pos numeral]
    refine (agree_wholeOf index).bind ?_
    rintro whole _ rfl
    exact agree_ofNumeral _
  · rw [if_neg numeral]
    refine (agree_ofNumeral _).bind ?_
    rintro amount _ rfl
    exact agree_pure rfl

/-- The comments of the second site, where it has any. -/
theorem Sites.comments (sites : c.Sites site other) :
    other.comments = if c.extra then "" else site.comments := by
  have alike := sites.alike
  have own : other.ownComment = if c.extra then "" else site.ownComment := by
    unfold Site.ownComment
    rw [alike.comment]
    rcases alike.type with same | ⟨extra, _⟩
    · rw [same]
      cases c.extra <;> rfl
    · rw [extra]
      rfl
  have lifted : String.join (other.sockets.map Site.liftedComments) =
      if c.extra then "" else String.join (site.sockets.map Site.liftedComments) := by
    have related := sites.sockets
    generalize site.sockets = sockets at related
    generalize other.sockets = others at related
    induction related with
    | nil => cases c.extra <;> rfl
    | @cons socket there _ _ first _ ih =>
      have here : Site.liftedComments there = if c.extra then "" else Site.liftedComments socket := by
        unfold Site.liftedComments
        rw [first.kind]
        by_cases form : socket.kind = .value
        · rw [if_pos form, if_pos form, first.comments form]
          cases c.extra <;> rfl
        · rw [if_neg form, if_neg form]
          cases c.extra <;> rfl
      rw [List.map_cons, List.map_cons, String.join_cons, String.join_cons, here, ih]
      cases c.extra <;> rfl
  unfold Site.comments
  rw [alike.inline, own, lifted]
  cases c.extra with
  | true => simp
  | false => rfl

end Access

end Coupling

end BlockCompiler
