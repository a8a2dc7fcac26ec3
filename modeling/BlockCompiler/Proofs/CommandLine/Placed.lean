import BlockCompiler.CommandLine.Run
import BlockCompiler.Proofs.Name.Keys
import BlockCompiler.Proofs.Step
import Mathlib.Data.List.Forall2

/-!
Where the source is written. The name of a workspace is made into the name of a file that is put behind the
output directory. It stays there as long as nothing before its last slash leads anywhere else; slashes of the
name are kept, so a name can lead out of the directory as well.
-/

namespace BlockCompiler

/-- A text does not start at the root, and nothing before its last slash leads anywhere. -/
def StaysPut (text : List Char) : Prop :=
  text.head? ≠ some '/' ∧ ∀ piece ∈ (splitSlashes text).dropLast, piece = [] ∨ piece = ['.']

/-- A route leads to something that lies directly in the directory that another route leads to. -/
def Route.Holds (directory route : Route) : Prop :=
  ∃ name : String, name ∉ ["", ".", ".."] ∧ '/' ∉ name.toList ∧
    route = { directory with names := directory.names ++ [name] }

/-- Two texts with slashes and dots in the same places; each other character of the first has become some
others. -/
inductive Likened : List Char → List Char → Prop
  | nil : Likened [] []
  | mark {c : Char} {text other : List Char} (mark : c ∈ ['/', '.']) (rest : Likened text other) :
      Likened (c :: text) (c :: other)
  | letter {c : Char} {out text other : List Char} (plain : c ∉ ['/', '.']) (filled : out ≠ [])
    (outs : ∀ d ∈ out, d ∉ ['/', '.'])
    (rest : Likened text other) : Likened (c :: text) (out ++ other)

section Pieces

variable {text other suffix : List Char}

theorem splitSlashes_eq (text : List Char) : splitSlashes text = text.splitOn '/' := by
  induction text with
  | nil => rfl
  | cons c rest ih =>
    have filled := List.splitOn_ne_nil '/' rest
    rw [splitSlashes, ih, List.splitOn_cons_eq_if_modifyHead]
    cases pieces : rest.splitOn '/' with
    | nil => exact absurd pieces filled
    | cons piece pieces => simp

theorem splitSlashes_of_not_mem (plain : '/' ∉ text) : splitSlashes text = [text] := by
  rw [splitSlashes_eq, List.splitOn_eq_singleton plain]

theorem splitSlashes_slash (text : List Char) : splitSlashes ('/' :: text) = [] :: splitSlashes text := by
  rw [splitSlashes_eq, splitSlashes_eq, List.splitOn_cons_eq_if_modifyHead, if_pos (by rfl)]

theorem splitSlashes_cons {c : Char} (plain : c ≠ '/') (text : List Char) :
    splitSlashes (c :: text) = (splitSlashes text).modifyHead (c :: ·) := by
  rw [splitSlashes_eq, splitSlashes_eq, List.splitOn_cons_eq_if_modifyHead, if_neg (by simpa using plain)]

theorem splitSlashes_append (plain : '/' ∉ text) (other : List Char) :
    splitSlashes (text ++ other) = (splitSlashes other).modifyHead (text ++ ·) := by
  induction text with
  | nil => exact (congrFun List.modifyHead_id _).symm
  | cons c rest ih =>
    obtain ⟨here, later⟩ := List.ne_and_not_mem_of_not_mem_cons plain
    rw [List.cons_append, splitSlashes_cons here.symm, ih later, List.modifyHead_modifyHead]
    rfl

/-- What is put behind a text without slashes belongs to its last piece. -/
theorem exists_splitSlashes_append (plain : '/' ∉ suffix) (text : List Char) :
    ∃ before last, splitSlashes text = before ++ [last] ∧
    splitSlashes (text ++ suffix) = before ++ [last ++ suffix] := by
  induction text with
  | nil => exact ⟨[], [], rfl, splitSlashes_of_not_mem plain⟩
  | cons c rest ih =>
    obtain ⟨before, last, pieces, longer⟩ := ih
    by_cases slash : c = '/'
    · subst slash
      refine ⟨[] :: before, last, ?_, ?_⟩
      · rw [splitSlashes_slash, pieces, List.cons_append]
      · rw [List.cons_append, splitSlashes_slash, longer, List.cons_append]
    · have step := splitSlashes_cons slash
      cases before with
      | nil => exact ⟨[], c :: last, by rw [step, pieces]; rfl, by rw [List.cons_append, step, longer]; rfl⟩
      | cons first before =>
        exact ⟨(c :: first) :: before, last,
          by rw [step, pieces]; rfl, by rw [List.cons_append, step, longer]; rfl⟩

theorem not_mem_of_mem_splitSlashes {piece : List Char} (member : piece ∈ splitSlashes text) :
    '/' ∉ piece := by
  induction text generalizing piece with
  | nil =>
    rw [List.mem_singleton.mp member]
    exact List.not_mem_nil
  | cons c rest ih =>
    by_cases slash : c = '/'
    · subst slash
      rw [splitSlashes_slash] at member
      rcases List.mem_cons.mp member with rfl | later
      · exact List.not_mem_nil
      · exact ih later
    · rw [splitSlashes_cons slash] at member
      cases pieces : splitSlashes rest with
      | nil =>
        rw [pieces] at member
        cases member
      | cons first others =>
        rw [pieces] at member ih
        rcases List.mem_cons.mp member with rfl | later
        · exact List.not_mem_cons_of_ne_of_not_mem (Ne.symm slash) (ih (List.mem_cons_self ..))
        · exact ih (List.mem_cons_of_mem _ later)

namespace Likened

theorem pieces (likened : Likened text other) :
    List.Forall₂ Likened (splitSlashes text) (splitSlashes other) := by
  have grow {text other front back : List Char}
      (grows : ∀ {p q}, Likened p q → Likened (front ++ p) (back ++ q))
      (related : List.Forall₂ Likened (splitSlashes text) (splitSlashes other)) (here : '/' ∉ front)
        (there : '/' ∉ back) :
      List.Forall₂ Likened (splitSlashes (front ++ text)) (splitSlashes (back ++ other)) := by
    rw [splitSlashes_append here, splitSlashes_append there]
    generalize splitSlashes text = pieces, splitSlashes other = others at related ⊢
    cases related with
    | nil => exact .nil
    | cons first rest => exact .cons (grows first) rest
  induction likened with
  | nil => exact .cons .nil .nil
  | @mark c text other mark rest ih =>
    by_cases slash : c = '/'
    · subst slash
      rw [splitSlashes_slash, splitSlashes_slash]
      exact .cons .nil ih
    · have plain : '/' ∉ [c] := by simpa using Ne.symm slash
      exact @grow _ _ [c] [c] (.mark mark) ih plain plain
  | @letter c out text other plain filled outs rest ih =>
    have here : '/' ∉ [c] := by
      rintro member
      obtain rfl := List.mem_singleton.mp member
      exact plain (by decide)
    exact @grow _ _ [c] _ (.letter plain filled outs) ih here fun member => outs _ member (by decide)

theorem eq_nil_iff (likened : Likened text other) : text = [] ↔ other = [] := by
  cases likened with
  | nil => simp
  | mark => simp
  | letter _ filled => simp [filled]

theorem eq_dot_iff (likened : Likened text other) : text = ['.'] ↔ other = ['.'] := by
  cases likened with
  | nil => simp
  | mark _ rest => simp [rest.eq_nil_iff]
  | @letter c out text other plain filled outs rest =>
    refine ⟨fun same => ?_, fun same => ?_⟩
    · obtain ⟨rfl, _⟩ := List.cons.inj same
      exact absurd plain (by decide)
    · obtain ⟨d, out, rfl⟩ := List.exists_cons_of_ne_nil filled
      obtain ⟨rfl, _⟩ := List.cons.inj same
      exact absurd (outs _ (List.mem_cons_self ..)) (by decide)

theorem not_mem (likened : Likened text other) (plain : '/' ∉ text) : '/' ∉ other := by
  induction likened with
  | nil => exact plain
  | mark _ _ ih =>
    obtain ⟨here, later⟩ := List.ne_and_not_mem_of_not_mem_cons plain
    exact List.not_mem_cons_of_ne_of_not_mem here (ih later)
  | letter _ _ outs _ ih =>
    rw [List.mem_append]
    rintro (among | later)
    · exact outs _ among (by decide)
    · exact ih (List.not_mem_of_not_mem_cons plain) later

theorem starts_iff (likened : Likened text other) : text.head? = some '/' ↔ other.head? = some '/' := by
  cases likened with
  | nil => simp
  | mark => simp
  | @letter c out text other plain filled outs rest =>
    obtain ⟨d, out, rfl⟩ := List.exists_cons_of_ne_nil filled
    have first := outs d (List.mem_cons_self ..)
    simp only [List.cons_append, List.head?_cons, Option.some.injEq]
    exact ⟨fun same => absurd plain (by simp [same]), fun same => absurd first (by simp [same])⟩

theorem staysPut_iff (likened : Likened text other) : StaysPut text ↔ StaysPut other := by
  have related : List.Forall₂ Likened (splitSlashes text).dropLast (splitSlashes other).dropLast := by
    rw [List.dropLast_eq_take, List.dropLast_eq_take, likened.pieces.length_eq]
    exact List.forall₂_take _ likened.pieces
  unfold StaysPut
  refine and_congr (not_congr likened.starts_iff) ?_
  generalize (splitSlashes text).dropLast = pieces, (splitSlashes other).dropLast = others at related ⊢
  induction related with
  | nil => simp
  | cons first _ ih => rw [List.forall_mem_cons, List.forall_mem_cons, ih, first.eq_nil_iff, first.eq_dot_iff]

end Likened

end Pieces

section Names

/-- What a name has for blanks and dashes in the name of a file. -/
def underscored (c : Char) : Char := if c = '-' ∨ c = ' ' then '_' else c

theorem toList_fileName (name : String) :
    (fileName name).toList = (lowerAfter [] name.toList).map underscored ++ ".cpp".toList := by
  rw [fileName, String.toList_append, String.toList_ofList, lower, String.toList_ofList]
  rfl

/-- Below the capital letters nothing has a lower case; all others lead above them. -/
theorem mapCase_lowerRuns_cases (n : Nat) : n < 65 ∧ mapCase lowerRuns n = n ∨ 90 < mapCase lowerRuns n := by
  have runs : lowerRuns = (0x41, 0x5a, 1, 0x20) :: lowerRuns.tail := rfl
  rcases Nat.lt_or_ge n 65 with below | above
  · refine .inl ⟨below, ?_⟩
    rw [runs, mapCase, if_pos (by omega)]
  · refine .inr ?_
    rcases Nat.lt_or_ge 90 n with letter | capital
    · exact mapCase_above letter (by decide +kernel)
    · rw [runs, mapCase, if_neg (by omega), if_pos (by simp [Nat.mod_one, capital])]
      omega

theorem underscored_ofNat {n : Nat} (above : 90 < n) : underscored (Char.ofNat n) ∉ ['/', '.'] := by
  have other : Char.ofNat n ∉ ['/', '.'] := by
    by_cases valid : n.isValidChar
    · have value : (Char.ofNat n).toNat = n := congrArg Char.toNat (dif_pos valid)
      simp only [List.mem_cons, List.not_mem_nil, or_false]
      rintro (same | same) <;> rw [same] at value <;> subst value <;> exact absurd above (by decide)
    · rw [show Char.ofNat n = Char.ofNat 0 from (dif_neg valid).trans rfl]
      decide
  unfold underscored
  split
  · decide
  · exact other

/-- A name in lower case has its slashes and dots where they were. -/
theorem likened_lowerAfter (before text : List Char) :
    Likened text ((lowerAfter before text).map underscored) := by
  induction text generalizing before with
  | nil => exact .nil
  | cons c rest ih =>
    rw [lowerAfter, List.map_append]
    split
    · rename_i dotted
      have plain : c ∉ ['/', '.'] := by
        simp only [List.mem_cons, List.not_mem_nil, or_false]
        rintro (rfl | rfl) <;> cases dotted
      exact .letter plain (by simp) (by simp [underscored]) (ih _)
    · split
      · rename_i sigma
        have plain : c ∉ ['/', '.'] := by
          simp only [List.mem_cons, List.not_mem_nil, or_false]
          rintro (rfl | rfl) <;> cases sigma
        refine .letter plain (by simp) ?_ (ih _)
        split <;> simp [underscored]
      · rw [List.map_singleton]
        rcases mapCase_lowerRuns_cases c.toNat with ⟨_, same⟩ | above
        · rw [same, Char.ofNat_toNat]
          by_cases mark : c ∈ ['/', '.']
          · have kept : underscored c = c := by
              simp only [List.mem_cons, List.not_mem_nil, or_false] at mark
              rcases mark with rfl | rfl <;> rfl
            rw [kept]
            exact .mark mark (ih _)
          · refine .letter mark (by simp) ?_ (ih _)
            rw [List.forall_mem_singleton]
            unfold underscored
            split
            · decide
            · exact mark
        · have other := underscored_ofNat above
          refine .letter ?_ (by simp) (by simpa using other) (ih _)
          simp only [List.mem_cons, List.not_mem_nil, or_false]
          rintro (rfl | rfl) <;> exact absurd above (by decide +kernel)

end Names

namespace Route

variable {name : String}

theorem root_ofText (text : String) : (ofText text).root = "" ↔ text.toList.head? ≠ some '/' := by
  unfold ofText
  cases text.toList with
  | nil => simp
  | cons c rest =>
    by_cases slash : c = '/'
    · subst slash
      simp only [List.takeWhile_cons, decide_true, if_true, List.length_cons]
      split_ifs <;> simp_all
    · simp [slash]

theorem ofText_of_not_mem {text : String} (plain : '/' ∉ text.toList) (proper : text ∉ ["", "."]) :
    ofText text = { names := [text] } := by
  have root : (ofText text).root = "" := by
    rw [root_ofText]
    exact fun first => plain (List.mem_of_mem_head? first)
  have names : (ofText text).names = [text] := by
    rw [ofText, splitSlashes_of_not_mem plain]
    simpa [not_or] using proper
  rw [← root, ← names]

/-- The route to the file of a name: what stands before the last slash, and then a name of its own. -/
theorem ofText_fileName (name : String) :
    ∃ before last, splitSlashes ((lowerAfter [] name.toList).map underscored) = before ++ [last] ∧
      (ofText (fileName name)).names =
        ((before.map String.ofList).filter fun piece => piece ≠ "" ∧ piece ≠ ".") ++
        [String.ofList (last ++ ".cpp".toList)] := by
  obtain ⟨before, last, pieces, longer⟩ :=
    @exists_splitSlashes_append ".cpp".toList (by decide) ((lowerAfter [] name.toList).map underscored)
  refine ⟨before, last, pieces, ?_⟩
  have filled : String.ofList (last ++ ".cpp".toList) ≠ "" ∧ String.ofList (last ++ ".cpp".toList) ≠ "." := by
    constructor <;> intro same <;> have := congrArg (·.toList.length) same <;> simp at this
  rw [ofText, toList_fileName]
  dsimp only
  rw [longer, List.map_append, List.filter_append, List.map_singleton, List.filter_singleton]
  simp only [filled, ne_eq, not_false_eq_true, and_self, decide_true, cond_true]

theorem head?_fileName (name : String) :
    (fileName name).toList.head? = some '/' ↔
    ((lowerAfter [] name.toList).map underscored).head? = some '/' := by
  rw [toList_fileName]
  cases (lowerAfter [] name.toList).map underscored with
  | nil => decide
  | cons => rfl

/-- The file of a name that stays put has a route of one name. -/
theorem exists_ofText_fileName (stays : StaysPut name.toList) :
    ∃ child : String, child ∉ ["", ".", ".."] ∧ '/' ∉ child.toList ∧
    ofText (fileName name) = { names := [child] } := by
  obtain ⟨relative, nowhere⟩ := (likened_lowerAfter [] name.toList).staysPut_iff.mp stays
  obtain ⟨before, last, pieces, names⟩ := ofText_fileName name
  have root : (ofText (fileName name)).root = "" :=
    (root_ofText _).mpr fun slash => relative ((head?_fileName name).mp slash)
  have empty : ((before.map String.ofList).filter fun piece => piece ≠ "" ∧ piece ≠ ".") = [] := by
    rw [List.filter_eq_nil_iff, List.forall_mem_map]
    intro piece member
    rw [pieces, List.dropLast_concat] at nowhere
    rcases nowhere piece member with rfl | rfl <;> simp
  refine ⟨String.ofList (last ++ ".cpp".toList), ?_, ?_, ?_⟩
  · have long : 4 ≤ (String.ofList (last ++ ".cpp".toList)).toList.length := by simp
    simp only [List.mem_cons, List.not_mem_nil, or_false]
    rintro (same | same | same) <;> rw [same] at long <;> exact absurd long (by decide)
  · have plain : '/' ∉ last :=
      not_mem_of_mem_splitSlashes (pieces ▸ List.mem_append_right _ (List.mem_singleton_self last))
    rw [String.toList_ofList, List.mem_append]
    rintro (slash | slash)
    · exact plain slash
    · exact absurd slash (by decide)
  · rw [empty, List.nil_append] at names
    rw [← root, ← names]

/-- Put behind any directory, the file of a name lies directly in it, just if the name stays put. -/
theorem holds_fileName_iff (name : String) :
    (∀ directory : Route, directory.Holds (directory.join (ofText (fileName name)))) ↔
    StaysPut name.toList := by
  constructor
  · intro holds
    obtain ⟨child, _, _, same⟩ := holds {}
    rw [(likened_lowerAfter [] name.toList).staysPut_iff]
    obtain ⟨before, last, pieces, names⟩ := ofText_fileName name
    rw [join] at same
    split_ifs at same with root
    · refine ⟨fun slash => (root_ofText _).mp root ((head?_fileName name).mpr slash), ?_⟩
      have alone := congrArg Route.names same
      simp only [List.nil_append, names] at alone
      have empty := (List.append_eq_singleton_iff.mp alone).resolve_right (by simp)
      rw [pieces, List.dropLast_concat]
      intro piece member
      have dropped := List.filter_eq_nil_iff.mp empty.1 (String.ofList piece) (List.mem_map_of_mem member)
      by_contra leads
      rw [not_or] at leads
      refine dropped ?_
      simp only [ne_eq, decide_eq_true_eq]
      constructor <;> intro nowhere <;>
        have chars := congrArg String.toList nowhere <;> rw [String.toList_ofList] at chars
      · exact leads.1 chars
      · exact leads.2 chars
    · exact absurd (congrArg Route.root same) root
  · intro stays directory
    obtain ⟨child, proper, plain, alone⟩ := exists_ofText_fileName stays
    exact ⟨child, proper, plain, by rw [alone, join, if_pos rfl]⟩

end Route

/-- A step that may fail and then another come to a value just if both do. -/
theorem bind_eq_ok {ε α β : Type} {x : Except ε α} {f : α → Except ε β} {b : β} :
    (x >>= f) = .ok b ↔ ∃ a, x = .ok a ∧ f a = .ok b := by
  cases x with
  | error error => simp [bind, Except.bind]
  | ok a => simp [bind, Except.bind]

namespace Files

variable {files made : Files} {route : Route}

theorem contents_provideDirectory (provided : files.provideDirectory route = .ok made) :
    made.contents = files.contents := by
  unfold provideDirectory at provided
  split at provided
  · split_ifs at provided
    cases provided
    rfl
  · unfold makeDirectory at provided
    cases located : files.locate route with
    | error error =>
      rw [located] at provided
      cases provided
    | ok place =>
      simp only [located, bind, Except.bind] at provided
      split_ifs at provided
      cases provided
      rfl

/-- Making directories leaves all files as they are. -/
theorem contents_makeDirectories (provided : files.makeDirectories route = .ok made) :
    made.contents = files.contents := by
  unfold makeDirectories at provided
  generalize route.names.reverse = names at provided
  induction names generalizing made with
  | nil =>
    cases provided
    rfl
  | cons name above ih =>
    rw [provideDirectories] at provided
    split at provided
    · cases higher : files.provideDirectories route.root above with
      | error error =>
        rw [higher] at provided
        cases provided
      | ok parents =>
        rw [higher] at provided
        exact (contents_provideDirectory provided).trans (ih higher)
    · exact contents_provideDirectory provided

/-- The text of a route is part of that of a longer one, unless it leads nowhere. -/
theorem exists_text_append {directory : Route} (leads : ¬ (directory.root = "" ∧ directory.names = []))
    (child : String) :
    ∃ rest, Route.text { directory with names := directory.names ++ [child] } = directory.text ++ rest := by
  have longer : ¬ (directory.root = "" ∧ directory.names ++ [child] = []) := by simp
  rw [Route.text, if_neg longer, Route.text, if_neg leads]
  by_cases none : directory.names = []
  · exact ⟨child, by simp [none, String.intercalate_nil]⟩
  · exact ⟨"/" ++ child,
      by rw [String.intercalate_append_of_ne_nil none (by simp)]; simp [String.append_assoc]⟩

/-- Where a route may be used, so may the one to its directory. -/
theorem check_of_check_child {directory : Route} {child : String}
    (passes : Route.check { directory with names := directory.names ++ [child] } = .ok ()) :
    directory.check = .ok () := by
  by_cases leads : directory.root = "" ∧ directory.names = []
  · unfold Route.check Route.text
    rw [if_pos leads]
    rfl
  · obtain ⟨rest, text⟩ := exists_text_append leads child
    unfold Route.check at passes ⊢
    rw [text] at passes
    split_ifs at passes with bare short
    have bare' : ¬ directory.text.toList.contains '\x00' := by
      rw [List.contains_iff_mem, String.toList_append, List.mem_append] at bare
      rw [List.contains_iff_mem]
      exact fun member => bare (.inl member)
    have short' : ¬ routeLimit < directory.text.utf8ByteSize := by
      rw [String.utf8ByteSize_append] at short
      omega
    rw [if_neg bare', if_neg short']

/-- A name in a directory is reached by way of the directory. -/
theorem locate_child {directory : Route} {child : String} {target : Place} (proper : child ≠ "..")
    (located : files.locate { directory with names := directory.names ++ [child] } = .ok target) :
    ∃ place, files.locate directory = .ok place ∧ files.isDirectory place ∧
    target = { place with names := place.names ++ [child] } := by
  obtain ⟨_, passes, reached⟩ := bind_eq_ok.mp located
  rw [List.foldlM_append] at reached
  obtain ⟨place, along, last⟩ := bind_eq_ok.mp reached
  obtain ⟨_, entered, same⟩ := bind_eq_ok.mp last
  obtain rfl := Except.ok.inj same
  refine ⟨place, bind_eq_ok.mpr ⟨(), check_of_check_child passes, along⟩, ?_⟩
  unfold enter at entered
  rw [if_neg proper] at entered
  split_ifs at entered with outside long
  exact ⟨by simpa using outside, (Except.ok.inj entered).symm⟩

/-- What is written to a name in a directory lies directly in the place of the directory, and nothing else
changes. -/
theorem write_child {directory : Route} {child : String} {content : List UInt8} {written : Files}
    (proper : child ≠ "..")
    (writes : files.write { directory with names := directory.names ++ [child] } content = .ok written) :
    ∃ place, files.locate directory = .ok place ∧ files.isDirectory place ∧
      written = { files with
        contents := files.contents.filter (·.1 ≠ { place with names := place.names ++ [child] }) ++
          [({ place with names := place.names ++ [child] }, content)] } := by
  obtain ⟨target, located, put⟩ := bind_eq_ok.mp writes
  obtain ⟨place, reached, isDirectory, rfl⟩ := locate_child proper located
  refine ⟨place, reached, isDirectory, ?_⟩
  split_ifs at put
  exact (Except.ok.inj put).symm

end Files

/-- The name of a file is a name of its own. -/
theorem fileName_own (name : String) : fileName name ∉ ["", ".", ".."] := by
  have long : 4 ≤ (fileName name).toList.length := by
    rw [toList_fileName, List.length_append]
    exact Nat.le_add_left ..
  simp only [List.mem_cons, List.not_mem_nil, or_false]
  rintro (same | same | same) <;> rw [same] at long <;> exact absurd long (by decide)

/-- For the name of a workspace without slashes, the name of its file is the route to it. -/
theorem Route.ofText_fileName_of_not_mem {name : String} (plain : '/' ∉ name.toList) :
    Route.ofText (fileName name) = { names := [fileName name] } := by
  refine Route.ofText_of_not_mem ?_ fun member => fileName_own name (List.mem_append_left [".."] member)
  rw [toList_fileName, List.mem_append]
  rintro (slash | slash)
  · exact (likened_lowerAfter [] name.toList).not_mem plain slash
  · exact absurd slash (by decide)

/-- A command that is to write and succeeds has a source, and leaves the files with the source at the
route. -/
theorem exists_write_of_compileFile {options : CommandOptions} {outDir : String} {bytes : List UInt8}
    {files : Files} {outcome : Outcome} {ws : Workspace} (loaded : loadFile options bytes = .ok ws)
    (writes : options.printOnly = false) (compiled : compileFile options outDir bytes files = .ok outcome)
    (succeeded : outcome.exitCode = 0) :
    ∃ source made, (Emitter.source { strict := options.strict } ws).1 = .ok source ∧
      files.makeDirectories (.ofText outDir) = .ok made ∧
      made.write ((Route.ofText outDir).join (.ofText (fileName ws.name))) source.toUTF8.toList =
      .ok outcome.files := by
  unfold compileFile at compiled
  rw [loaded] at compiled
  dsimp only at compiled
  cases run : (Emitter.sourceAmong (isHalved bytes) { strict := options.strict } ws).1 with
  | error error =>
    rw [run] at compiled
    dsimp only at compiled
    split_ifs at compiled
    cases compiled
    cases succeeded
  | ok source =>
    rw [run] at compiled
    simp only [writes, Bool.false_eq_true, if_false] at compiled
    split at compiled
    · cases compiled
    · rename_i written put
      split_ifs at compiled
      cases compiled
      obtain ⟨made, makes, wrote⟩ := bind_eq_ok.mp put
      exact ⟨source, made, Emitter.source_of_sourceAmong run, makes, wrote⟩

/-- The name of a file is a name of its own, so it is neither a directory nor the one above. Put behind a
directory it lies directly in it, whatever directory this is, just if the name of the workspace stays put, as
each name without slashes does. What a command writes for a name that stays put is a file directly in the
output directory, which is made if it is missing, and all other files stay as they were. -/
theorem compileFile_placed (name : String) :
    fileName name ∉ ["", ".", ".."] ∧
      ((∀ directory : Route, directory.Holds (directory.join (.ofText (fileName name)))) ↔
      StaysPut name.toList) ∧
      ('/' ∉ name.toList → StaysPut name.toList ∧
      Route.ofText (fileName name) = { names := [fileName name] }) ∧
      ∀ options outDir bytes files outcome ws, loadFile options bytes = .ok ws → ws.name = name →
        StaysPut name.toList →
        options.printOnly = false → compileFile options outDir bytes files = .ok outcome →
        outcome.exitCode = 0 →
        ∃ made place child, files.makeDirectories (.ofText outDir) = .ok made ∧
          made.locate (.ofText outDir) = .ok place ∧
          made.isDirectory place ∧ child ∉ ["", ".", ".."] ∧ '/' ∉ child.toList ∧
          outcome.files.directories = made.directories ∧
          ∃ source, (Emitter.source { strict := options.strict } ws).1 = .ok source ∧ outcome.files.contents =
            files.contents.filter (·.1 ≠ { place with names := place.names ++ [child] }) ++
              [({ place with names := place.names ++ [child] }, source.toUTF8.toList)] := by
  refine ⟨fileName_own name, Route.holds_fileName_iff name,
    fun plain => ⟨⟨?_, ?_⟩, Route.ofText_fileName_of_not_mem plain⟩, ?_⟩
  · exact fun first => plain (List.mem_of_mem_head? first)
  · rw [splitSlashes_of_not_mem plain]
    simp
  · rintro options outDir bytes files outcome ws loaded rfl stays writes compiled succeeded
    obtain ⟨child, proper, plain, alone⟩ := Route.exists_ofText_fileName stays
    obtain ⟨source, made, emitted, makes, wrote⟩ :=
      exists_write_of_compileFile loaded writes compiled succeeded
    simp only [alone, Route.join, if_true] at wrote
    obtain ⟨place, located, isDirectory, same⟩ := Files.write_child (fun up => proper (by simp [up])) wrote
    rw [same]
    refine ⟨made, place, child, makes, located, isDirectory, proper, plain, rfl, source, emitted, ?_⟩
    rw [Files.contents_makeDirectories makes]

/-- A workspace with blanks and dashes in its name, compiled into a directory that is not there yet. -/
theorem compileFile_placed_blink :
    let bytes := "\x7b\"name\":\"Blink LED-demo\",\"blocks\":[]\x7d".toUTF8.toList
    fileName "Blink LED-demo" = "blink_led_demo.cpp" ∧ StaysPut "Blink LED-demo".toList ∧
      Route.ofText "blink_led_demo.cpp" = { names := ["blink_led_demo.cpp"] } ∧
      ∃ outcome made place child, compileFile { file := "w.json" } "out" bytes {} = .ok outcome ∧
        outcome.exitCode = 0 ∧
        ({} : Files).makeDirectories (.ofText "out") = .ok made ∧ made.locate (.ofText "out") = .ok place ∧
        made.isDirectory place ∧ child ∉ ["", ".", ".."] ∧ '/' ∉ child.toList ∧
          outcome.files.directories = made.directories ∧
        ∃ source : String, outcome.files.contents =
          [({ place with names := place.names ++ [child] }, source.toUTF8.toList)] := by
  intro bytes
  have named : (loadFile { file := "w.json" } bytes).toOption.any fun ws => ws.name = "Blink LED-demo" := by
    decide +kernel
  have succeeds : (compileFile { file := "w.json" } "out" bytes {}).toOption.any fun outcome =>
      outcome.exitCode = 0 := by
    decide +kernel
  obtain ⟨ws, loaded, name⟩ := exists_ok_of_any named
  obtain ⟨outcome, compiled, succeeded⟩ := exists_ok_of_any succeeds
  obtain ⟨_, _, plain, placed⟩ := compileFile_placed "Blink LED-demo"
  obtain ⟨stays, route⟩ := plain (by decide)
  have file : fileName "Blink LED-demo" = "blink_led_demo.cpp" := by decide +kernel
  obtain ⟨made, place, child, makes, located, isDirectory, proper, bare, directories, source, _, contents⟩ :=
    placed _ "out" bytes {} outcome ws loaded (by simpa using name) stays rfl compiled
      (by simpa using succeeded)
  exact ⟨file, stays, file ▸ route, outcome, made, place, child, compiled, by
    simpa using succeeded, makes, located,
    isDirectory, proper, bare, directories, source, by simpa using contents⟩

/-- A name that starts with two dots and a slash leads out of the output directory: the command writes beside
it. -/
theorem fileName_escapes :
    let bytes := "\x7b\"name\":\"../escaped\",\"blocks\":[]\x7d".toUTF8.toList
    let files : Files := { contents := [({ names := ["w.json"] }, bytes)] }
    ¬ StaysPut "../escaped".toList ∧
      ¬ (Route.ofText "out").Holds ((Route.ofText "out").join (.ofText (fileName "../escaped"))) ∧
      ∃ outcome, runCommand ["w.json", "--out", "out"] [] files = .ok outcome ∧ outcome.exitCode = 0 ∧
        outcome.files.directories = [{ names := ["out"] }] ∧
        outcome.files.contents.map (·.1) = [{ names := ["w.json"] }, { names := ["escaped.cpp"] }] := by
  intro bytes files
  have route : (Route.ofText "out").join (.ofText (fileName "../escaped")) =
      { names := ["out", "..", "escaped.cpp"] } := by
    decide +kernel
  have runs : (runCommand ["w.json", "--out", "out"] [] files).toOption.any fun outcome =>
      outcome.exitCode = 0 ∧ outcome.files.directories = [{ names := ["out"] }] ∧
        outcome.files.contents.map (·.1) = [{ names := ["w.json"] }, { names := ["escaped.cpp"] }] := by
          decide +kernel
  obtain ⟨outcome, run, ended⟩ := exists_ok_of_any runs
  refine ⟨?_, ?_, outcome, run, by simpa using ended⟩
  · rintro ⟨_, nowhere⟩
    rcases nowhere ['.', '.'] (by decide) with same | same <;> cases same
  · rintro ⟨child, _, _, same⟩
    rw [route] at same
    have lengths := congrArg (·.names.length) same
    cases lengths

end BlockCompiler
