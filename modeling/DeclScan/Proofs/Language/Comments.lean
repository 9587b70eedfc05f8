import DeclScan.Proofs.Language.Initialisers
import DeclScan.Proofs.Text.Blanks

/-!
# DeclScan.Proofs.Language.Comments

Comments behind a declaration. A comment is cut off what stands behind the equals sign, so it makes
no difference to an initialiser before it. But the equals sign is looked for in the comment as well:
a declaration without an initialiser gets the label of the comment.

* `beforeComment_trim_append`: a comment adds nothing to what is left of a text without comments.
* `inferType_append_comment`: the label is that of the declaration, if an equals sign or the end of
  the statement stands before the comment, and that of the comment otherwise.
* `inferTypeAt_append_comment`: when a comment leaves the label as it is.
-/

namespace DeclScan
namespace JavaScript

open Text

/-! ## Cutting off a comment -/

theorem slashes_prefix_append {s : List Char} (t t' : List Char)
    (h : ['/', '/'] <+: s ++ '/' :: '/' :: t) : ['/', '/'] <+: s ++ '/' :: '/' :: t' := by
  match s with
  | [] => simp
  | [c] => simpa using h
  | c :: d :: s => simpa using h

theorem beforeComment_trim {before rest : List Char}
    (h : splitBefore? ['/', '/'] (before ++ rest) = some (before, rest)) :
    beforeComment (trim (before ++ rest)) = trim before := by
  obtain ⟨-, ⟨t, rfl⟩, hfirst⟩ := (splitBefore?_eq_some_iff (by simp)).1 h
  have hslash : isBlank '/' = false := by decide
  have htrim : trim (before ++ (['/', '/'] ++ t)) =
      trimStart before ++ '/' :: '/' :: trimEnd t := by
    have hend := trimEnd_append_cons hslash [] t
    rw [List.nil_append, List.nil_append] at hend
    rw [trim, List.cons_append, trimStart_append_cons hslash, trimEnd_append_cons hslash,
      List.cons_append, List.nil_append, hend]
  have hcut : splitBefore? ['/', '/'] (trimStart before ++ '/' :: '/' :: trimEnd t) =
      some (trimStart before, '/' :: '/' :: trimEnd t) := by
    rw [splitBefore?_eq_some_iff (by simp)]
    refine ⟨rfl, ⟨trimEnd t, rfl⟩, ?_⟩
    intro u v huv hv hprefix
    obtain ⟨blanks, hbefore, -⟩ := eq_append_trimStart before
    have hsplit : before = blanks ++ u ++ v := by
      rw [List.append_assoc, ← huv, ← hbefore]
    exact hfirst _ v hsplit hv (slashes_prefix_append _ t hprefix)
  rw [htrim, beforeComment, hcut]
  simp only [trim, trimStart_trimStart]

theorem beforeComment_trim_of_none {s : List Char} (h : splitBefore? ['/', '/'] s = none) :
    beforeComment (trim s) = trim s := by
  have hinfix : trim s <:+: s := by
    obtain ⟨first, hfirst, -⟩ := eq_append_trimStart s
    obtain ⟨last, hlast, -⟩ := eq_trimEnd_append (trimStart s)
    exact ⟨first, last, by rw [List.append_assoc, trim, ← hlast, ← hfirst]⟩
  have hnone : splitBefore? ['/', '/'] (trim s) = none := by
    rw [splitBefore?_eq_none_iff (by simp)] at h ⊢
    exact fun hcomment => h (hcomment.trans hinfix)
  rw [beforeComment, hnone]

/-- A comment adds nothing to what is left of a text. The cases are whether the text has a comment of
its own. -/
theorem beforeComment_trim_append (s comment : List Char) :
    beforeComment (trim (s ++ " // ".toList ++ comment)) = beforeComment (trim s) := by
  cases hs : splitBefore? ['/', '/'] s with
  | none =>
    have hcut : splitBefore? ['/', '/'] (s ++ [' '] ++ '/' :: '/' :: ' ' :: comment) =
        some (s ++ [' '], '/' :: '/' :: ' ' :: comment) := by
      rw [splitBefore?_eq_some_iff (by simp)]
      refine ⟨rfl, ⟨' ' :: comment, rfl⟩, ?_⟩
      intro u v huv hv hprefix
      rw [splitBefore?_eq_none_iff (by simp)] at hs
      obtain rfl | ⟨w, d, rfl⟩ := List.eq_nil_or_concat' v
      · exact hv rfl
      · rw [← List.append_assoc] at huv
        obtain ⟨rfl, hd⟩ := List.append_inj' huv rfl
        obtain rfl : ' ' = d := by simpa using hd
        match w with
        | [] => simp at hprefix
        | [c] => simp at hprefix
        | c :: d :: w =>
          obtain ⟨rfl, rfl⟩ : '/' = c ∧ '/' = d := by simpa using hprefix
          exact hs ⟨u, w, by simp⟩
    have hblank : IsPad [' '] := by decide
    have hassoc : s ++ " // ".toList ++ comment = s ++ [' '] ++ '/' :: '/' :: ' ' :: comment := by
      rw [List.append_assoc, List.append_assoc]
      rfl
    rw [hassoc, beforeComment_trim hcut, trim_append hblank, beforeComment_trim_of_none hs]
  | some found =>
    obtain ⟨before, rest⟩ := found
    obtain ⟨rfl, hrest, hfirst⟩ := (splitBefore?_eq_some_iff (by simp)).1 hs
    have hmore : splitBefore? ['/', '/'] (before ++ (rest ++ " // ".toList ++ comment)) =
        some (before, rest ++ " // ".toList ++ comment) := by
      rw [splitBefore?_eq_some_iff (by simp)]
      obtain ⟨t, rfl⟩ := hrest
      refine ⟨rfl, ⟨t ++ " // ".toList ++ comment, by simp⟩, ?_⟩
      intro u v huv hv hprefix
      refine hfirst u v huv hv (slashes_prefix_append (t ++ " // ".toList ++ comment) t ?_)
      simpa using hprefix
    rw [beforeComment_trim hs, List.append_assoc before, List.append_assoc before,
      beforeComment_trim hmore]

/-! ## Labels -/

variable {tail : List Char}

theorem inferType_append_of_any (h : tail.any endsStatement = true) (rest : List Char) :
    inferType (tail ++ rest) = inferType tail := by
  rw [← inferType_takeWhile (tail ++ rest), takeWhile_append_of_any h, inferType_takeWhile]

theorem inferType_append_comment_of_mem (h : '=' ∈ tail) (comment : List Char) :
    inferType (tail ++ " // ".toList ++ comment) = inferType tail := by
  obtain ⟨between, after, rfl, hbetween⟩ := List.eq_append_cons_of_mem h
  have hassoc : between ++ '=' :: after ++ " // ".toList ++ comment =
      between ++ '=' :: (after ++ " // ".toList ++ comment) := by
    simp
  rw [hassoc, inferType_append hbetween, inferType_append hbetween]
  by_cases hends : after.any endsStatement = true
  · rw [List.append_assoc after, takeWhile_append_of_any hends]
  · have hinside : ∀ c ∈ after ++ " // ".toList, (!endsStatement c) = true := by
      intro c hc
      rcases List.mem_append.1 hc with hc | hc
      · simp at hends
        simp [hends c hc]
      · have hspace : (" // ".toList.all fun d => !endsStatement d) = true := rfl
        exact List.all_eq_true.1 hspace c hc
    have hall : (after.takeWhile fun c => !endsStatement c) = after :=
      List.takeWhile_eq_self_iff.2 fun c hc => hinside c (List.mem_append_left _ hc)
    rw [List.takeWhile_append_of_pos hinside, hall, beforeComment_trim_append]

theorem inferType_append_comment_of_not_mem (hsign : '=' ∉ tail)
    (hends : tail.any endsStatement = false) (comment : List Char) :
    inferType (tail ++ " // ".toList ++ comment) = inferType comment := by
  have hmark : '=' ∉ tail ++ " // ".toList := by
    simpa using hsign
  by_cases hcomment : '=' ∈ comment
  · obtain ⟨between, after, rfl, hbetween⟩ := List.eq_append_cons_of_mem hcomment
    have hbefore : '=' ∉ tail ++ " // ".toList ++ between := by
      rw [List.mem_append, not_or]
      exact ⟨hmark, hbetween⟩
    have hany : (tail ++ " // ".toList ++ between).any endsStatement =
        between.any endsStatement := by
      have hspace : (" // ".toList).any endsStatement = false := by decide
      rw [List.any_append, List.any_append, hends, hspace, Bool.false_or, Bool.false_or]
    rw [← List.append_assoc, inferType_append hbefore, inferType_append hbetween, hany]
  · rw [inferType_of_notMem hcomment, inferType_of_notMem]
    rw [List.mem_append, not_or]
    exact ⟨hmark, hcomment⟩

/-- Whether the label of a text is settled before its end: by an equals sign, or by the end of the
statement. -/
def settlesLabel (tail : List Char) : Bool := tail.any fun c => c = '=' || endsStatement c

theorem inferType_append_comment (tail comment : List Char) :
    inferType (tail ++ " // ".toList ++ comment) =
      if settlesLabel tail then inferType tail else inferType comment := by
  by_cases hends : tail.any endsStatement = true
  · have hsettles : settlesLabel tail = true := by
      obtain ⟨c, hc, hend⟩ := List.any_eq_true.1 hends
      exact List.any_eq_true.2 ⟨c, hc, by simp [hend]⟩
    rw [if_pos hsettles, List.append_assoc, inferType_append_of_any hends]
  · rw [Bool.not_eq_true] at hends
    by_cases hsign : '=' ∈ tail
    · have hsettles : settlesLabel tail = true := List.any_eq_true.2 ⟨'=', hsign, rfl⟩
      rw [if_pos hsettles, inferType_append_comment_of_mem hsign]
    · have hsettles : ¬ settlesLabel tail = true := by
        intro h
        obtain ⟨c, hc, heither⟩ := List.any_eq_true.1 h
        simp only [Bool.or_eq_true, decide_eq_true_eq] at heither
        rcases heither with rfl | hend
        · exact hsign hc
        · rw [List.any_eq_false] at hends
          exact hends c hc hend
      rw [if_neg hsettles, inferType_append_comment_of_not_mem hsign hends]

theorem inferType_of_not_settlesLabel (h : settlesLabel tail = false) :
    inferType tail = "unknown" := by
  refine inferType_of_notMem fun hsign => ?_
  rw [settlesLabel, List.any_eq_false] at h
  exact h '=' hsign rfl

/-- A declaration with a comment behind it has its own label, if an equals sign or the end of the
statement stands before the comment, and that of the comment otherwise. So the comment leaves the
label as it is exactly if it comes behind one of these, or has no label of its own. -/
theorem inferTypeAt_append_comment (tail comment : List Char) :
    (inferTypeAt (tail ++ " // ".toList ++ comment) 0 =
      if settlesLabel tail then inferTypeAt tail 0 else inferTypeAt comment 0) ∧
    (inferTypeAt (tail ++ " // ".toList ++ comment) 0 = inferTypeAt tail 0 ↔
      settlesLabel tail = true ∨ inferTypeAt comment 0 = "unknown") := by
  simp only [inferTypeAt_zero, inferType_append_comment, true_and]
  by_cases h : settlesLabel tail = true
  · simp [h]
  · rw [Bool.not_eq_true] at h
    simp [h, inferType_of_not_settlesLabel h]

/-- The comment of a declaration without an initialiser holds an equals sign: what stands behind that
is taken for the initialiser. -/
theorem comment_labelled :
    inferTypeAt ("".toList ++ " // ".toList ++ "was = 5".toList) 0 = "number" ∧
      inferTypeAt "".toList 0 = "unknown" := by
  decide +kernel

/-- An initialiser is not affected. -/
example : inferTypeAt " = 'a' // was = 5".toList 0 = "string" := by decide +kernel

end JavaScript
end DeclScan
