import RuleLint.Proofs.File.Siblings

namespace RuleLint.File

open Text (Bytes)

section

variable {entries : List (Location × Entry)} {keep : Location × Entry → Bool} {l : Location}

theorem lookup_filter_of_kept (kept : ∀ e, keep (l, e) = true) :
    (entries.filter keep).lookup l = entries.lookup l := by
  induction entries with
  | nil => rfl
  | cons entry entries ih =>
      obtain ⟨l', e⟩ := entry
      by_cases same : l = l'
      · subst same
        rw [List.filter_cons_of_pos (kept e), List.lookup_cons_self, List.lookup_cons_self]
      · have other : (l == l') = false := beq_eq_false_iff_ne.mpr same
        by_cases stays : keep (l', e) = true
        · rw [List.filter_cons_of_pos stays, List.lookup_cons, List.lookup_cons, other, ih]
        · rw [List.filter_cons_of_neg stays, List.lookup_cons, other, ih]

theorem lookup_filter_of_dropped (dropped : ∀ e, keep (l, e) = false) :
    (entries.filter keep).lookup l = none := by
  rw [List.lookup_eq_none_iff]
  intro entry inside
  obtain ⟨there, stays⟩ := List.mem_filter.mp inside
  rw [bne_iff_ne]
  rintro rfl
  rw [dropped entry.2] at stays
  cases stays

end

namespace FileSystem

variable {fs fs' : FileSystem} {l l' d : Location} {directory p : Path} {name child : String}
  {bytes : Bytes}

theorem entry?_put (below : l ≠ []) (e : Entry) (l' : Location) :
    entry? (fs.put l e) l' = if l' = l then some e else fs.entry? l' := by
  by_cases root : l' = []
  · rw [root, entry?_nil, entry?_nil, if_neg below.symm]
  · unfold entry? put
    rw [if_neg root, if_neg root]
    split
    · rename_i same
      rw [same, List.lookup_cons_self]
    · rename_i other
      rw [List.lookup_cons, beq_eq_false_iff_ne.mpr other]
      exact lookup_filter_of_kept fun e => by simpa using other

theorem entry?_erase (below : l ≠ []) (l' : Location) :
    entry? (fs.erase l) l' = if l <+: l' then none else fs.entry? l' := by
  by_cases root : l' = []
  · simp [root, below]
  · unfold entry? erase
    rw [if_neg root, if_neg root]
    split
    · rename_i under
      have covers : l.isPrefixOf l' = true := List.isPrefixOf_iff_prefix.mpr under
      exact lookup_filter_of_dropped fun e => by simp [covers]
    · rename_i elsewhere
      have beside : l.isPrefixOf l' = false := by
        rw [Bool.eq_false_iff, ne_eq, List.isPrefixOf_iff_prefix]
        exact elsewhere
      exact lookup_filter_of_kept fun e => by simp [beside]

theorem IsTree.entry?_below (tree : fs.IsTree) (noDirectory : fs.entry? l ≠ some .directory)
    (under : l <+: l') (other : l' ≠ l) : fs.entry? l' = none := by
  obtain ⟨names, rfl⟩ := under
  rw [Option.eq_none_iff_forall_ne_some]
  intro e present
  induction names using List.reverseRecOn generalizing e with
  | nil => exact other (List.append_nil l)
  | append_singleton names name ih =>
      rw [← List.append_assoc] at present
      have parent := tree.parent present
      by_cases last : names = []
      · rw [last, List.append_nil] at parent
        exact noDirectory parent
      · exact ih (by simpa using last) .directory parent

theorem target_eq_ok : fs.target p = .ok (d, name) ↔
    checkLength p = .ok () ∧ p.names.dropLast.foldlM fs.step (fs.start p) = .ok d ∧
      fs.entry? d = some .directory ∧ p.names.getLast?.getD "." = name ∧
      name.utf8ByteSize ≤ maxNameBytes := by
  unfold target
  change (checkLength p >>= fun _ => p.names.dropLast.foldlM fs.step (fs.start p) >>= _) = _ ↔ _
  cases checkLength p with
  | error cause => simp [bind, Except.bind]
  | ok checked =>
      cases p.names.dropLast.foldlM fs.step (fs.start p) with
      | error cause => simp [bind, Except.bind]
      | ok parent =>
          simp only [bind, Except.bind, pure, Except.pure, true_and, Except.ok.injEq]
          split
          · rename_i there
            split
            · rename_i long
              constructor
              · intro failed
                cases failed
              · rintro ⟨-, -, rfl, short⟩
                exact absurd short (not_le_of_gt long)
            · rename_i short
              simp only [Except.ok.injEq, Prod.mk.injEq]
              constructor
              · rintro ⟨rfl, rfl⟩
                exact ⟨rfl, there, rfl, not_lt.mp short⟩
              · rintro ⟨rfl, -, last, -⟩
                exact ⟨rfl, last⟩
          · rename_i elsewhere
            simp only [reduceCtorEq, false_iff]
            rintro ⟨rfl, there, -⟩
            exact elsewhere there

theorem target_join_eq_ok (proper : ProperName child) :
    fs.target (directory.join child) = .ok (d, name) ↔
      checkLength (directory.join child) = .ok () ∧ fs.Reaches directory d ∧ name = child ∧
        child.utf8ByteSize ≤ maxNameBytes := by
  rw [target_eq_ok, Path.names_join directory proper, List.dropLast_concat, List.getLast?_concat,
    start_congr (Path.isAbsolute_join directory proper)]
  constructor
  · rintro ⟨checked, walk, there, rfl, short⟩
    exact ⟨checked, ⟨walk, there⟩, rfl, short⟩
  · rintro ⟨checked, reaches, rfl, short⟩
    exact ⟨checked, reaches.walk, reaches.there, rfl, short⟩

theorem endsInSlash_join (proper : ProperName child) : endsInSlash (directory.join child) = false := by
  rw [endsInSlash, Path.getLast?_join directory proper]
  exact decide_eq_false fun slash => proper.noSlash (List.mem_of_getLast? slash)

theorem write_join_eq_ok (proper : ProperName child) :
    fs.write (directory.join child) bytes = .ok fs' ↔
      checkLength (directory.join child) = .ok () ∧ child.utf8ByteSize ≤ maxNameBytes ∧
        ∃ d, fs.Reaches directory d ∧ fs.entry? (d ++ [child]) ≠ some .directory ∧
          fs' = fs.put (d ++ [child]) (.file bytes) := by
  unfold write
  cases aim : fs.target (directory.join child) with
  | error cause =>
      simp only [bind, Except.bind, reduceCtorEq, false_iff]
      rintro ⟨checked, short, d, reaches, -⟩
      rw [(target_join_eq_ok proper).mpr ⟨checked, reaches, rfl, short⟩] at aim
      cases aim
  | ok place =>
      obtain ⟨d, name⟩ := place
      obtain ⟨checked, reaches, rfl, short⟩ := (target_join_eq_ok proper).mp aim
      have only {d' : Location} (reaches' : fs.Reaches directory d') : d' = d :=
        Except.ok.inj (reaches'.walk.symm.trans reaches.walk)
      simp only [bind, Except.bind, pure, Except.pure, proper.notHere, proper.notParent, or_self,
        if_false, endsInSlash_join proper, Bool.false_eq_true, checked, short, true_and]
      split
      · rename_i occupied
        simp only [reduceCtorEq, false_iff]
        rintro ⟨d', reaches', free, -⟩
        exact free (only reaches' ▸ occupied)
      all_goals
        rename_i found
        rw [Except.ok.injEq]
        constructor
        · rintro rfl
          exact ⟨d, reaches, by simp [found], rfl⟩
        · rintro ⟨d', reaches', -, rfl⟩
          rw [only reaches']

theorem canonicalize_join_of_reaches (proper : ProperName child)
    (checked : checkLength (directory.join child) = .ok ()) (reaches : fs.Reaches directory d)
    (short : child.utf8ByteSize ≤ maxNameBytes) (present : (fs.entry? (d ++ [child])).isSome) :
    fs.canonicalize (directory.join child) = .ok (d ++ [child]) := by
  have step : fs.step d child = .ok (d ++ [child]) :=
    (step_eq_ok proper).mpr ⟨reaches.there, short, present, rfl⟩
  rw [canonicalize_eq_ok, Path.steps_join directory proper,
    start_congr (Path.isAbsolute_join directory proper), List.foldlM_append, reaches.walk]
  refine ⟨checkPath_of_checkLength checked, ?_⟩
  change ([child].foldlM fs.step d) = _
  simp [step]

theorem target_of_getLast?_steps (ends : p.EndsIn name directory) (reaches : fs.Reaches directory d)
    (checked : checkLength p = .ok ()) (short : name.utf8ByteSize ≤ maxNameBytes)
    (last : p.steps.getLast? = some name) : fs.target p = .ok (d, name) := by
  obtain ⟨-, dots, still, names⟩ := ends.names_of_getLast?_steps last
  rw [target_eq_ok, names, ← List.append_assoc, List.dropLast_concat, List.getLast?_concat,
    start_congr ends.absolute, List.foldlM_append, reaches.walk]
  exact ⟨checked, walk_here still reaches.there, reaches.there, rfl, short⟩

theorem target_inv {other : String} (ends : p.EndsIn name directory)
    (reaches : fs.Reaches directory d) (aim : fs.target p = .ok (l, other)) (proper : other ≠ ".")
    (bare : endsInSlash p = false) : l = d ∧ other = name ∧ p.steps.getLast? = some name := by
  obtain ⟨-, walk, -, last, -⟩ := target_eq_ok.mp aim
  obtain ⟨dots, dots', still, still', names⟩ := ends.names
  rw [Path.steps_eq_names (of_decide_eq_false bare)]
  cases dots' using List.reverseRecOn with
  | nil =>
      rw [names, ← List.append_assoc, List.getLast?_concat] at last
      rw [names, ← List.append_assoc, List.dropLast_concat, start_congr ends.absolute,
        List.foldlM_append, reaches.walk] at walk
      have walked := (walk_here still reaches.there).symm.trans walk
      rw [names, ← List.append_assoc, List.getLast?_concat]
      exact ⟨(Except.ok.inj walked).symm, last.symm, rfl⟩
  | append_singleton dots' dot =>
      have here : dot = "." := still' dot (by simp)
      rw [names, ← List.cons_append, ← List.append_assoc, ← List.append_assoc, List.getLast?_concat,
        here] at last
      exact absurd last.symm proper

theorem rename_join_eq_ok (ends : p.EndsIn name directory) (proper : ProperName child)
    (checked : checkLength (directory.join child) = .ok ()) (reaches : fs.Reaches directory d)
    (short : child.utf8ByteSize ≤ maxNameBytes)
    (there : fs.entry? (d ++ [child]) = some (.file bytes)) :
    fs.rename (directory.join child) p = .ok fs' ↔
      checkLength p = .ok () ∧ name.utf8ByteSize ≤ maxNameBytes ∧ p.steps.getLast? = some name ∧
        fs.entry? (d ++ [name]) ≠ some .directory ∧
        fs' = (fs.erase (d ++ [child])).put (d ++ [name]) (.file bytes) := by
  have origin := canonicalize_join_of_reaches proper checked reaches short (by simp [there])
  have read := readAt_eq_ok.mpr there
  unfold rename
  cases aim : fs.target p with
  | error cause =>
      simp only [bind, Except.bind, reduceCtorEq, false_iff]
      rintro ⟨checked', short', last, -⟩
      rw [target_of_getLast?_steps ends reaches checked' short' last] at aim
      cases aim
  | ok place =>
      obtain ⟨l, other⟩ := place
      simp only [bind, Except.bind, pure, Except.pure, checked, origin, read]
      by_cases dots : other = "." ∨ other = ".."
      · simp only [if_pos dots, reduceCtorEq, false_iff]
        rintro ⟨checked', short', last, -⟩
        rw [target_of_getLast?_steps ends reaches checked' short' last] at aim
        cases aim
        exact dots.elim ends.proper.notHere ends.proper.notParent
      · rw [if_neg dots]
        by_cases slash : endsInSlash p = true
        · simp only [if_pos slash, reduceCtorEq, false_iff]
          rintro ⟨-, -, last, -⟩
          exact (ends.names_of_getLast?_steps last).1 (of_decide_eq_true slash)
        · have bare : endsInSlash p = false := by simpa using slash
          obtain ⟨rfl, rfl, last⟩ := target_inv ends reaches aim (fun here => dots (.inl here)) bare
          obtain ⟨checked', -, -, -, short'⟩ := target_eq_ok.mp aim
          simp only [slash, Bool.false_eq_true, if_false, checked', short', last, true_and]
          split
          · rename_i occupied
            simp [occupied]
          · rename_i free
            rw [Except.ok.injEq]
            exact ⟨fun same => ⟨free, same.symm⟩, fun same => same.2.symm⟩

end FileSystem

end RuleLint.File
