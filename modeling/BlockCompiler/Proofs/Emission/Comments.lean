import BlockCompiler.Emission.Site
import BlockCompiler.Proofs.Syntax.Spelling
import BlockCompiler.Proofs.Text.Commented

/-!
The comments above the code of a block: they are whole lines, and no tokens.
-/

namespace BlockCompiler

/-- Lines that all get a lead of two slashes are no tokens. The part of the first line that is already passed
holds no line feed. -/
theorem leads_leadLaterLines {text : List Char} (passed : List Char) (ends : text.getLast? = some '\n')
    (oneLine : '\n' ∉ passed) :
    Leads ('/' :: '/' :: (passed ++ leadLaterLines "// ".toList text)) [] := by
  induction text generalizing passed with
  | nil => cases ends
  | cons c rest ih =>
    cases rest with
    | nil =>
      obtain rfl : c = '\n' := by simpa using ends
      exact leads_comment oneLine
    | cons d rest =>
      have later : (d :: rest).getLast? = some '\n' := by simpa [List.getLast?_cons_cons] using ends
      rw [leadLaterLines_cons_of_ne_nil _ c (List.cons_ne_nil d rest)]
      by_cases feed : c = '\n'
      · subst feed
        have following := ih [' '] later (by decide)
        have whole := (leads_comment oneLine).append following
        simpa using whole
      · have longer := ih (passed ++ [c]) later (by
          simp only [List.mem_append, List.mem_singleton, not_or]
          exact ⟨oneLine, fun same => feed same.symm⟩)
        rw [if_neg feed]
        simpa using longer

theorem leads_leadLines {text : String} (ends : text.toList.getLast? = some '\n') :
    Leads (leadLines "// " text).toList [] := by
  have lines := leads_leadLaterLines [' '] ends (by decide)
  simpa [leadLines] using lines

theorem nestedComments_ends {comments : List String} (filled : nestedComments comments ≠ "") :
    (nestedComments comments).toList.getLast? = some '\n' := by
  unfold nestedComments at filled ⊢
  by_cases empty : comments = []
  · simp [empty] at filled
  · rw [if_neg (by simpa using empty), joinTexts, String.intercalate_append_of_ne_nil empty (by simp)]
    simp

theorem leads_liftedComments (socket : Socket) : Leads (Site.liftedComments socket).toList [] := by
  unfold Site.liftedComments
  split_ifs
  · split
    · exact leads_nil
    · rename_i filled
      exact leads_leadLines (nestedComments_ends filled)
  · exact leads_nil

theorem leads_join {codes : List String} (each : ∀ code ∈ codes, Leads code.toList []) :
    Leads (String.join codes).toList [] := by
  induction codes with
  | nil => simpa using leads_nil
  | cons code codes ih =>
    have others := ih fun other among => each other (List.mem_cons_of_mem _ among)
    have whole := (each code (List.mem_cons_self ..)).append others
    simpa [String.join_cons] using whole

/-- The comments of a block that defines no procedure are no tokens. -/
theorem Site.leads_comments (site : Site) (plain : isProcedureDefinition site.head.type = false) :
    Leads site.comments.toList [] := by
  have own : Leads site.ownComment.toList [] := by
    unfold Site.ownComment
    split
    · exact leads_nil
    · simp only [plain, Bool.false_eq_true, if_false]
      exact leads_leadLines (by simp)
  have lifted : Leads (String.join (site.sockets.map Site.liftedComments)).toList [] := by
    apply leads_join
    intro code among
    obtain ⟨socket, _, rfl⟩ := List.mem_map.mp among
    exact leads_liftedComments socket
  unfold Site.comments
  split_ifs
  · exact leads_nil
  · rw [String.toList_append]
    exact own.append lifted

/-- The comments of a site are lines that start with two slashes. -/
theorem Site.exists_slashedLines (site : Site) : ∃ lines, site.comments.toList = unlines lines ∧
    ∀ line ∈ lines, "//".toList <+: line ∧ '\n' ∉ line := by
  have led : ∀ {lead text : String}, "//".toList <+: lead.toList → '\n' ∉ lead.toList →
      text.toList.getLast? = some '\n' → ∃ lines, (leadLines lead text).toList = unlines lines ∧
        ∀ line ∈ lines, "//".toList <+: line ∧ '\n' ∉ line := by
    intro lead text slashes oneLine ends
    obtain ⟨lines, filled, each, shape⟩ := exists_unlines ends
    refine ⟨lines.map (lead.toList ++ ·), leadLines_unlines filled each shape, fun line member => ?_⟩
    obtain ⟨old, among, rfl⟩ := List.mem_map.mp member
    exact ⟨slashes.trans (List.prefix_append ..), List.not_mem_append oneLine (each old among)⟩
  have own : ∃ lines, site.ownComment.toList = unlines lines ∧ ∀ line ∈ lines, "//".toList <+: line ∧
      '\n' ∉ line := by
    unfold Site.ownComment
    split
    · exact ⟨[], rfl, by simp⟩
    · refine led ?_ ?_ (by simp)
      · split_ifs
        · exact ⟨['/', ' '], rfl⟩
        · exact ⟨[' '], rfl⟩
      · split_ifs <;> decide
  have lifted : ∃ lines, (String.join (site.sockets.map Site.liftedComments)).toList = unlines lines ∧
      ∀ line ∈ lines, "//".toList <+: line ∧ '\n' ∉ line := by
    generalize site.sockets = sockets
    induction sockets with
    | nil => exact ⟨[], rfl, by simp⟩
    | cons socket rest ih =>
      obtain ⟨later, shape, each⟩ := ih
      have here : ∃ lines, (Site.liftedComments socket).toList = unlines lines ∧
          ∀ line ∈ lines, "//".toList <+: line ∧ '\n' ∉ line := by
        unfold Site.liftedComments
        split_ifs
        · split
          · exact ⟨[], rfl, by simp⟩
          · rename_i filled
            exact led ⟨[' '], rfl⟩ (by decide) (nestedComments_ends filled)
        · exact ⟨[], rfl, by simp⟩
      obtain ⟨lines, shapeHere, eachHere⟩ := here
      refine ⟨lines ++ later, ?_, List.forall_mem_append.mpr ⟨eachHere, each⟩⟩
      rw [List.map_cons, String.join_cons, String.toList_append, shapeHere, shape, unlines, unlines, unlines,
        List.flatMap_append]
  obtain ⟨first, shapeFirst, eachFirst⟩ := own
  obtain ⟨later, shapeLater, eachLater⟩ := lifted
  unfold Site.comments
  split_ifs
  · exact ⟨[], rfl, by simp⟩
  · refine ⟨first ++ later, ?_, List.forall_mem_append.mpr ⟨eachFirst, eachLater⟩⟩
    rw [String.toList_append, shapeFirst, shapeLater, unlines, unlines, unlines, List.flatMap_append]

/-- The comments of a site are comment lines. -/
theorem Site.exists_commentLines (site : Site) : ∃ lines, site.comments.toList = unlines lines ∧
    ∀ line ∈ lines, isCommentLine line ∧ '\n' ∉ line := by
  obtain ⟨lines, shape, each⟩ := site.exists_slashedLines
  refine ⟨lines, shape, fun line member => ⟨?_, (each line member).2⟩⟩
  obtain ⟨words, rfl⟩ := (each line member).1
  exact isCommentLine_iff.mpr ⟨0, words, rfl⟩

end BlockCompiler
