import LiveQuery.Proofs.Query.Tokens
import LiveQuery.Proofs.Query.Trees
import LiveQuery.Query.Statement

/-!
# The language of statements

`Renders` says which texts mean a tree, by the forms of a statement alone and without any order in
which they are tried. The reader accepts exactly these texts. It never loses one to an earlier
reading, because no call is a literal and no path is a call; and it finds the arguments of a call
again, because a rendering is gathered whole wherever it stands.
-/

namespace LiveQuery

open Call (Spaced Mode Piece Tidy Whole condense)

/-- The text means the tree. In the parentheses of a call, blanks that stand in no string are
free. -/
inductive Renders : List Char → Expr → Prop
  | literal {token : List Char} {value : Value} (h : Literal.parse token = .ok value) :
    Renders token (.literal value)
  | path {text : List Char} (h : Expr.isPath text = true)
    (other : ∀ value, Literal.parse text ≠ .ok value) :
    Renders text (.lookup (.literal (.str (String.ofList text))))
  | call {name : String} {t : Expr} {args : List (List Char × Expr)} {body : List Char}
    (renders : ∀ arg ∈ args, Renders arg.1 arg.2) (node : Node name (args.map (·.2)) t)
    (spaced : Spaced .outside ([','].intercalate (args.map (·.1))) body) :
    Renders (name.toList ++ '(' :: (body ++ [')'])) t

theorem Renders.unary {name : String} {a : List Char} {c t : Expr} (h : Renders a c)
    (node : Node name [c] t) : Renders (name.toList ++ '(' :: (a ++ [')'])) t := by
  have hrenders : ∀ arg ∈ [(a, c)], Renders arg.1 arg.2 := by simpa using h
  exact .call hrenders node (by simpa using Spaced.refl .outside a)

theorem Renders.binary {name : String} {a b : List Char} {c d t : Expr} (ha : Renders a c)
    (hb : Renders b d) (node : Node name [c, d] t) :
    Renders (name.toList ++ '(' :: ((a ++ ',' :: b) ++ [')'])) t := by
  have hrenders : ∀ arg ∈ [(a, c), (b, d)], Renders arg.1 arg.2 := by simpa using ⟨ha, hb⟩
  exact .call hrenders node (by simpa using Spaced.refl .outside (a ++ ',' :: b))

theorem Renders.fresh {text : List Char} {t : Expr} (h : Renders text t) : t.Fresh := by
  induction h with
  | literal => trivial
  | path => trivial
  | call _ node _ ih => exact node.fresh (List.forall_mem_map.2 ih)

/-! ### The reader, one level at a time -/

theorem Registry.read_eq (r : Registry) (statement : List Char) :
    r.read statement =
      match Literal.parse (Text.trim statement) with
      | .ok value => .ok (.literal value)
      | .error _ =>
        match Call.split (Text.trim statement) with
        | .error e => .error e
        | .ok none => Expr.ofPath (Text.trim statement)
        | .ok (some (name, args)) =>
          args.mapM r.read >>= r.build (String.ofList name) := by
  rw [Registry.read]
  have hattach : ∀ args : List (List Char),
      (args.attach.mapM fun arg => r.read arg.1) = args.mapM r.read := by
    intro args
    rw [List.mapM_subtype (g := r.read) fun _ _ => rfl, List.unattach_attach]
  cases Literal.parse (Text.trim statement) with
  | ok value => rfl
  | error e =>
    cases Call.split (Text.trim statement) with
    | error e => rfl
    | ok found =>
      cases found with
      | none => rfl
      | some call => exact congrArg (· >>= r.build (String.ofList call.1)) (hattach call.2)

theorem exists_pairs_of_mapM {α β ε : Type} {f : α → Except ε β} {as : List α} {bs : List β}
    (h : as.mapM f = .ok bs) : ∃ pairs : List (α × β),
      pairs.map (·.1) = as ∧ pairs.map (·.2) = bs ∧ ∀ pair ∈ pairs, f pair.1 = .ok pair.2 := by
  induction as generalizing bs with
  | nil =>
    cases h
    exact ⟨[], rfl, rfl, nofun⟩
  | cons a rest ih =>
    rw [List.mapM_cons] at h
    cases ha : f a with
    | error e =>
      rw [ha] at h
      cases h
    | ok b =>
      cases hrest : rest.mapM f with
      | error e =>
        rw [ha, hrest] at h
        cases h
      | ok more =>
        rw [ha, hrest] at h
        cases h
        obtain ⟨pairs, rfl, rfl, hpairs⟩ := ih hrest
        exact ⟨(a, b) :: pairs, rfl, rfl, List.forall_mem_cons.2 ⟨ha, hpairs⟩⟩

/-- What holds of literals and paths, and of a call if it holds of its arguments, holds of every tree
that is read. -/
theorem Registry.read_induction (r : Registry) {motive : Expr → Prop}
    (literal : ∀ token value, Literal.parse token = .ok value → motive (.literal value))
    (path : ∀ text, motive (.lookup (.literal (.str text))))
    (call : ∀ name children t, (∀ child ∈ children, motive child) →
      r.build name children = .ok t → motive t)
    {statement : List Char} {t : Expr} (h : r.read statement = .ok t) : motive t := by
  induction hlength : statement.length using Nat.strongRecOn generalizing statement t with
  | ind length ih =>
    rw [Registry.read_eq] at h
    split at h
    · rename_i hparse
      cases h
      exact literal _ _ hparse
    · split at h
      · cases h
      · simp only [Expr.ofPath] at h
        split at h
        · cases h
          exact path _
        · cases h
      · rename_i name args hsplit
        cases hargs : args.mapM r.read with
        | error e =>
          rw [hargs] at h
          cases h
        | ok children =>
          rw [hargs] at h
          obtain ⟨pairs, rfl, rfl, hpairs⟩ := exists_pairs_of_mapM hargs
          refine call _ _ t (List.forall_mem_map.2 fun pair hpair => ?_) h
          have hmem : pair.1 ∈ pairs.map (·.1) := List.mem_map_of_mem hpair
          have hshort : pair.1.length < length := by
            have hlt := Call.length_lt_of_mem_split hsplit hmem
            have hle := Text.length_trim_le statement
            omega
          exact ih _ hshort (hpairs pair hpair) rfl

theorem mapM_of_pairs {α β ε : Type} {f : α → Except ε β} {pairs : List (α × β)}
    (h : ∀ pair ∈ pairs, f pair.1 = .ok pair.2) :
    (pairs.map (·.1)).mapM f = .ok (pairs.map (·.2)) := by
  induction pairs with
  | nil => rfl
  | cons pair rest ih =>
    rw [List.map_cons, List.mapM_cons, h pair List.mem_cons_self,
      ih fun p hp => h p (List.mem_cons_of_mem pair hp)]
    rfl

/-! ### What is read has this meaning -/

theorem renders_of_read (statement : List Char) {t : Expr}
    (h : Registry.builtin.read statement = .ok t) : Renders (Text.trim statement) t := by
  induction hlength : statement.length using Nat.strongRecOn generalizing statement t with
  | ind length ih =>
    rw [Registry.read_eq] at h
    split at h
    · rename_i hparse
      cases h
      exact .literal hparse
    · rename_i hparse
      split at h
      · cases h
      · simp only [Expr.ofPath] at h
        split at h
        · rename_i hpath
          cases h
          exact .path hpath fun value hvalue => by simp [hparse] at hvalue
        · cases h
      · rename_i name args hsplit
        cases hargs : args.mapM Registry.builtin.read with
        | error e =>
          rw [hargs] at h
          cases h
        | ok children =>
          rw [hargs] at h
          obtain ⟨body, hbody, hbodyArgs⟩ := Call.split_eq_some hsplit
          obtain ⟨htidy, hpieces⟩ := Call.pieces_of_splitArguments hbodyArgs
          obtain ⟨pairs, rfl, rfl, hpairs⟩ := exists_pairs_of_mapM hargs
          have hrenders : ∀ arg ∈ pairs, Renders arg.1 arg.2 := by
            intro arg harg
            have hmem : arg.1 ∈ pairs.map (·.1) := List.mem_map_of_mem harg
            have hshort : arg.1.length < length := by
              have hlt := Call.length_lt_of_mem_split hsplit hmem
              have hle := Text.length_trim_le statement
              omega
            rw [← (htidy arg.1 hmem).trim]
            exact ih _ hshort arg.1 (hpairs arg harg) rfl
          rw [hbody, ← String.toList_ofList (l := name)]
          refine .call hrenders (Registry.build_eq_ok_iff.1 h) ?_
          rw [hpieces]
          exact Call.spaced_condense .outside body

/-! ### What has this meaning is read -/

theorem trim_of_call {name : String} {children : List Expr} {t : Expr}
    (node : Node name children t) (body : List Char) :
    Text.trim (name.toList ++ '(' :: (body ++ [')'])) = name.toList ++ '(' :: (body ++ [')']) := by
  refine Call.trim_eq_self (fun c hc => ?_) (fun c hc => ?_)
  · obtain ⟨first, rest, hname⟩ := List.exists_cons_of_ne_nil node.isNameChar.1
    rw [hname] at hc
    cases hc
    have hordinary := Literal.isOrdinary_of_isNameChar
      (node.isNameChar.2 c (hname ▸ List.mem_cons_self))
    simp only [Call.isOrdinary, Bool.not_eq_true', Bool.or_eq_false_iff] at hordinary
    exact hordinary.1.1.1.1
  · rw [← List.cons_append, ← List.append_assoc, List.getLast?_concat] at hc
    cases hc
    rfl

theorem read_of_call {name : String} {t : Expr} {args : List (List Char × Expr)} {body : List Char}
    (node : Node name (args.map (·.2)) t) (hpiece : ∀ arg ∈ args, Piece arg.1)
    (hread : ∀ arg ∈ args, Registry.builtin.read (condense .outside arg.1) = .ok arg.2)
    (hbody : condense .outside body = condense .outside ([','].intercalate (args.map (·.1)))) :
    Registry.builtin.read (name.toList ++ '(' :: (body ++ [')'])) = .ok t := by
  obtain ⟨hname, hchars⟩ := node.isNameChar
  have hne : args.map (·.1) ≠ [] := fun hnil => node.children_ne_nil (by simpa using hnil)
  have hsplit := Call.split_of_name hname hchars
    (Call.splitArguments_eq_of_pieces hne (List.forall_mem_map.2 hpiece) hbody)
  have hchildren : ((args.map (·.1)).map (condense .outside)).mapM Registry.builtin.read =
      .ok (args.map (·.2)) := by
    have hpairs : ∀ pair ∈ args.map fun arg => (condense .outside arg.1, arg.2),
        Registry.builtin.read pair.1 = .ok pair.2 := List.forall_mem_map.2 hread
    have hall := mapM_of_pairs hpairs
    rw [List.map_map, List.map_map] at hall
    rw [List.map_map]
    exact hall
  rw [Registry.read_eq, trim_of_call node]
  cases hparse : Literal.parse (name.toList ++ '(' :: (body ++ [')'])) with
  | ok value =>
    exact absurd hparse (Literal.parse_call_ne_ok hname
      (fun c hc => Literal.isOrdinary_of_isNameChar (hchars c hc)) value)
  | error e =>
    simp only [hsplit, hchildren, String.ofList_toList]
    exact Registry.build_eq_ok_iff.2 node

theorem isOrdinary_of_isPath {text : List Char} (h : Expr.isPath text = true) :
    text ≠ [] ∧ ∀ c ∈ text, Call.isOrdinary c = true := by
  simp only [Expr.isPath, Bool.and_eq_true, Bool.not_eq_true', List.any_eq_false] at h
  refine ⟨of_decide_eq_true h.1, fun c hc => ?_⟩
  have hc := h.2 c hc
  simp only [Call.isOrdinary, Bool.not_eq_true']
  exact eq_false_of_ne_true hc

/-- A rendering is gathered whole, and it is read with and without the blanks that do not count. -/
theorem Renders.read {text : List Char} {t : Expr} (h : Renders text t) :
    Piece text ∧ Text.trim text = text ∧ Registry.builtin.read text = .ok t ∧
      Registry.builtin.read (condense .outside text) = .ok t := by
  induction h with
  | @literal token value hparse =>
    obtain ⟨hcondense, hpiece⟩ := Literal.piece_of_parse hparse
    have htidy : Tidy token := ⟨hcondense ▸ hpiece.ne_nil, hcondense, hpiece.whole.run⟩
    have hread : Registry.builtin.read token = .ok (.literal value) := by
      rw [Registry.read_eq, htidy.trim, hparse]
    exact ⟨hpiece, htidy.trim, hread, by rwa [hcondense]⟩
  | @path text hpath other =>
    obtain ⟨hne, hordinary⟩ := isOrdinary_of_isPath hpath
    have hcondense := Call.condense_of_isOrdinary hordinary
    have hwhole := Call.whole_of_isOrdinary hordinary
    have htidy : Tidy text := ⟨hne, hcondense, hwhole.run⟩
    have hparenthesis : '(' ∉ text := fun hmem => by
      have hopen := hordinary '(' hmem
      revert hopen
      decide
    have hread : Registry.builtin.read text =
        .ok (.lookup (.literal (.str (String.ofList text)))) := by
      rw [Registry.read_eq, htidy.trim]
      cases hparse : Literal.parse text with
      | ok value => exact absurd hparse (other value)
      | error e => simp [Call.split_of_not_mem hparenthesis, Expr.ofPath, hpath]
    exact ⟨⟨hwhole, by rwa [hcondense]⟩, htidy.trim, hread, by rwa [hcondense]⟩
  | @call name t args body _ node spaced ih =>
    have hpiece : ∀ arg ∈ args, Piece arg.1 := fun arg harg => (ih arg harg).1
    have hread : ∀ arg ∈ args, Registry.builtin.read (condense .outside arg.1) = .ok arg.2 :=
      fun arg harg => (ih arg harg).2.2.2
    have hbody := spaced.condense_eq.symm
    have hname : ∀ c ∈ name.toList, Call.isOrdinary c = true := fun c hc =>
      Literal.isOrdinary_of_isNameChar (node.isNameChar.2 c hc)
    have hwhole : Whole 1 body :=
      (Call.whole_intercalate (List.forall_mem_map.2 hpiece)).of_condense_eq hbody
    have hcondense : condense .outside (name.toList ++ '(' :: (body ++ [')'])) =
        name.toList ++ '(' :: (condense .outside body ++ [')']) := by
      rw [Call.condense_append, Call.condense_of_isOrdinary hname,
        (Call.whole_of_isOrdinary hname).run, Call.condense_parenthesized hwhole.run]
    refine ⟨⟨(Call.whole_of_isOrdinary hname).append hwhole.parenthesized, ?_⟩,
      trim_of_call node body, read_of_call node hpiece hread hbody, ?_⟩
    · rw [hcondense]
      simp
    · rw [hcondense]
      exact read_of_call node hpiece hread ((Call.condense_condense .outside body).trans hbody)

theorem Renders.unique {text : List Char} {t u : Expr} (ht : Renders text t)
    (hu : Renders text u) : t = u :=
  Except.ok.inj (ht.read.2.2.1.symm.trans hu.read.2.2.1)

theorem read_of_renders {statement : List Char} {t : Expr}
    (h : Renders (Text.trim statement) t) : Registry.builtin.read statement = .ok t := by
  obtain ⟨-, htrim, hread, -⟩ := h.read
  rw [Registry.read_eq, htrim] at hread
  rw [Registry.read_eq]
  exact hread

/-- The reader accepts exactly the renderings of trees, up to the blanks around them. No text
renders two trees, and a tree that is read remembers nothing. -/
theorem parse_eq_ok_iff_renders :
    (∀ (statement : String) (t : Expr),
      Expr.parse statement = .ok t ↔ Renders (Text.trim statement.toList) t) ∧
    (∀ (text : List Char) (t u : Expr), Renders text t → Renders text u → t = u) ∧
    ∀ (statement : String) (t : Expr), Expr.parse statement = .ok t → t.Fresh := by
  refine ⟨fun statement t => ⟨renders_of_read _, read_of_renders⟩, ?_, ?_⟩
  · exact fun text t u ht hu => ht.unique hu
  · exact fun statement t h => (renders_of_read _ h).fresh

end LiveQuery
