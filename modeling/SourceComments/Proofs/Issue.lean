import SourceComments.Issue
import SourceComments.Proofs.ByteOrder

/-! The order of issues.

Issues are compared by the bytes of their paths and then by their rules. This is an order, but it
does not see why a file is unreadable: two reasons for one file are compared as equal, and sorting
leaves them as they come. Where no file has two reasons, all arrangements of the same issues are
sorted into one list. -/

namespace SourceComments.Issue

/-- What issues are compared by. -/
def key (issue : Issue) : String × Rule := (issue.path, issue.rule)

/-- Keys in the order of paths and, for one path, of rules. -/
def KeyLe (left right : String × Rule) : Prop :=
  left.1 < right.1 ∨ left.1 = right.1 ∧ left.2.rank ≤ right.2.rank

/-- No file is unreadable for two reasons. -/
def OneReason (issues : List Issue) : Prop :=
  ∀ path reason other, unreadable path reason ∈ issues → unreadable path other ∈ issues →
    reason = other

instance : Std.TransCmp order :=
  inferInstanceAs (Std.TransCmp (compareLex (compareOn path) (compareOn fun issue =>
    issue.rule.rank)))

theorem rank_injective {left right : Rule} (same : left.rank = right.rank) : left = right := by
  cases left <;> cases right <;> first | rfl | cases same

theorem KeyLe.antisymm {left right : String × Rule} (before : KeyLe left right)
    (after : KeyLe right left) : left = right := by
  rcases before with less | ⟨same, rank⟩
  · rcases after with more | ⟨same, -⟩
    · exact absurd more less.asymm
    · exact absurd same less.ne'
  · rcases after with more | ⟨-, rankToo⟩
    · exact absurd same more.ne'
    · exact Prod.ext same (rank_injective (Nat.le_antisymm rank rankToo))

section

variable {left right : Issue}

theorem order_eq_lt_iff : left.order right = .lt ↔
    utf8Bytes left.path < utf8Bytes right.path ∨
      left.path = right.path ∧ left.rule.rank < right.rule.rank := by
  rw [order, Ordering.then_eq_lt, utf8Bytes_lt_iff, compare_lt_iff_lt, Std.compare_eq_iff_eq,
    Nat.compare_eq_lt]

theorem order_isLE_iff : (left.order right).isLE = true ↔ KeyLe left.key right.key := by
  rw [order, Ordering.isLE_then_iff_or, compare_lt_iff_lt, Std.compare_eq_iff_eq,
    Nat.isLE_compare]
  rfl

/-- Of an issue, only the reason that a file is unreadable for is not compared. -/
theorem order_eq_eq_iff : left.order right = .eq ↔
    left = right ∨ ∃ path reason other, left = unreadable path reason ∧
      right = unreadable path other := by
  rw [order, Ordering.then_eq_eq, Std.compare_eq_iff_eq, Nat.compare_eq_eq]
  constructor
  · rintro ⟨samePath, sameRank⟩
    cases left with
    | unterminated file =>
        cases right with
        | unterminated fileToo =>
            left
            exact congrArg unterminated samePath
        | unreadable => cases sameRank
    | unreadable file reason =>
        cases right with
        | unterminated => cases sameRank
        | unreadable fileToo other =>
            obtain rfl : file = fileToo := samePath
            right
            exact ⟨file, reason, other, rfl, rfl⟩
  · rintro (rfl | ⟨file, reason, other, rfl, rfl⟩)
    · exact ⟨rfl, rfl⟩
    · exact ⟨rfl, rfl⟩

theorem order_total (left right : Issue) :
    ((left.order right).isLE || (right.order left).isLE) = true := by
  rw [Bool.or_eq_true]
  by_cases before : (left.order right).isLE = true
  · exact .inl before
  · have after : right.order left = .lt := Std.OrientedCmp.lt_of_not_isLE before
    right
    rw [after]
    rfl

end

section

variable (issues : List Issue)

theorem sort_ordered :
    (sort issues).Pairwise fun left right => (left.order right).isLE = true := by
  apply List.pairwise_mergeSort
  · intro first second third before after
    exact Std.TransCmp.isLE_trans before after
  · exact order_total

theorem sort_ascending : (sort issues).Pairwise fun left right => left.path ≤ right.path := by
  refine (sort_ordered issues).imp fun {left right} before => ?_
  rcases order_isLE_iff.mp before with less | ⟨same, -⟩
  · exact less.le
  · exact same.le

theorem sort_keys_ordered : ((sort issues).map key).Pairwise KeyLe := by
  rw [List.pairwise_map]
  exact (sort_ordered issues).imp order_isLE_iff.mp

end

section

variable {issues others : List Issue}

theorem sort_perm (perm : issues.Perm others) : (sort issues).Perm (sort others) :=
  ((List.mergeSort_perm _ _).trans perm).trans (List.mergeSort_perm _ _).symm

/-- However the issues are arranged, the same paths and rules stand in the same places. -/
theorem sort_keys_eq (perm : issues.Perm others) : (sort issues).map key = (sort others).map key :=
  List.Perm.eq_of_pairwise (fun _ _ _ _ => KeyLe.antisymm) (sort_keys_ordered issues)
    (sort_keys_ordered others) ((sort_perm perm).map key)

theorem sort_eq (perm : issues.Perm others) (told : OneReason issues) :
    sort issues = sort others := by
  refine List.Perm.eq_of_pairwise ?_ (sort_ordered issues) (sort_ordered others) (sort_perm perm)
  intro left right member memberToo before after
  have same : left.order right = .eq := Std.OrientedCmp.isLE_antisymm before after
  rcases order_eq_eq_iff.mp same with equal | ⟨file, reason, other, rfl, rfl⟩
  · exact equal
  · have listed : unreadable file reason ∈ issues := List.mem_mergeSort.mp member
    have listedToo : unreadable file other ∈ issues :=
      perm.mem_iff.mpr (List.mem_mergeSort.mp memberToo)
    rw [told file reason other listed listedToo]

end

/-- Issues are ordered by the bytes of their paths and then by their rules. Two of them compare
equal only if they are the same or give two reasons for one unreadable file. So arrangements of
the same issues are sorted alike as to paths and rules, and into the same list where no file has
two reasons. -/
theorem order_lawful (first second third : Issue) (issues others : List Issue)
    (perm : issues.Perm others) :
    (first.order second = .lt ↔ utf8Bytes first.path < utf8Bytes second.path ∨
      first.path = second.path ∧ first.rule.rank < second.rule.rank) ∧
    first.order second = (second.order first).swap ∧
    ((first.order second).isLE = true → (second.order third).isLE = true →
      (first.order third).isLE = true) ∧
    (first.order second = .eq ↔ first = second ∨
      ∃ path reason other, first = unreadable path reason ∧ second = unreadable path other) ∧
    (sort issues).map key = (sort others).map key ∧
    (OneReason issues → sort issues = sort others) := by
  refine ⟨order_eq_lt_iff, Std.OrientedCmp.eq_swap, ?_, order_eq_eq_iff, sort_keys_eq perm,
    sort_eq perm⟩
  intro before after
  exact Std.TransCmp.isLE_trans before after

/-- An unterminated file comes before an unreadable one of the same path, and behind those of
smaller paths. -/
theorem order_lawful_of_three :
    ((unterminated "a.js").order (unreadable "b.c" "denied")).isLE = true ∧
      sort [unreadable "b.c" "denied", unterminated "b.c", unterminated "a.js"] =
        [unterminated "a.js", unterminated "b.c", unreadable "b.c" "denied"] := by
  have perm : [unreadable "b.c" "denied", unterminated "b.c", unterminated "a.js"].Perm
      [unterminated "a.js", unterminated "b.c", unreadable "b.c" "denied"] := by decide
  obtain ⟨-, -, trans, -, -, sorted⟩ := order_lawful (unterminated "a.js") (unterminated "b.c")
    (unreadable "b.c" "denied") _ _ perm
  have told : OneReason [unreadable "b.c" "denied", unterminated "b.c", unterminated "a.js"] := by
    intro path reason other member memberToo
    simp only [List.mem_cons, List.not_mem_nil, or_false, reduceCtorEq, unreadable.injEq]
      at member memberToo
    rw [member.2, memberToo.2]
  refine ⟨trans (by decide) (by decide), ?_⟩
  rw [sorted told, sort]
  apply List.mergeSort_of_pairwise
  decide

/-- Two reasons for one file compare equal although the issues differ. So the same issues stay as
they come, even if one of them stands on both sides of the other. -/
theorem order_misses_reasons :
    (unreadable "a.c" "denied").order (unreadable "a.c" "lost") = .eq ∧
      unreadable "a.c" "denied" ≠ unreadable "a.c" "lost" ∧
      sort [unreadable "a.c" "denied", unreadable "a.c" "lost", unreadable "a.c" "denied"] =
        [unreadable "a.c" "denied", unreadable "a.c" "lost", unreadable "a.c" "denied"] ∧
      sort [unreadable "a.c" "denied", unreadable "a.c" "denied", unreadable "a.c" "lost"] =
        [unreadable "a.c" "denied", unreadable "a.c" "denied", unreadable "a.c" "lost"] := by
  refine ⟨by decide, by decide, ?_, ?_⟩
  all_goals
    rw [sort]
    apply List.mergeSort_of_pairwise
    decide

end SourceComments.Issue
