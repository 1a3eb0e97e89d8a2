import Mathlib.Data.Rat.Floor

/-! The part of the list of containers that is rendered (`dockerVirtualization.ts`). -/
namespace Mxterm
namespace DockerWindow

structure DockerVirtualWindowInput where
  itemCount : ℚ
  scrollTop : ℚ
  viewportHeight : ℚ
  rowHeight : Option ℚ
  gap : Option ℚ
  overscan : Option ℚ

structure DockerVirtualWindow where
  startIndex : ℤ
  endIndexExclusive : ℤ
  rowStep : ℤ
  totalHeight : ℤ
  topPadding : ℤ
  bottomPadding : ℤ
  deriving DecidableEq

def dockerContainerCardHeight : ℚ := 76
def dockerContainerListGap : ℚ := 8
def dockerContainerWindowOverscan : ℚ := 2

def clamp (value least greatest : ℤ) : ℤ := min (max value least) greatest

def calculateDockerVirtualWindow (input : DockerVirtualWindowInput) : DockerVirtualWindow :=
  let safeCount := max 0 ⌊input.itemCount⌋
  let safeRowHeight := max 1 ⌊input.rowHeight.getD dockerContainerCardHeight⌋
  let safeGap := max 0 ⌊input.gap.getD dockerContainerListGap⌋
  let safeOverscan := max 0 ⌊input.overscan.getD dockerContainerWindowOverscan⌋
  let rowStep := safeRowHeight + safeGap
  let totalHeight := if safeCount = 0 then 0 else safeCount * rowStep - safeGap
  if safeCount = 0 then ⟨0,0,rowStep,totalHeight,0,0⟩
  else
    let safeScrollTop := max 0 ⌊input.scrollTop⌋
    let safeViewportHeight := max 0 ⌊input.viewportHeight⌋
    let visibleCount := max 1 ⌈(safeViewportHeight : ℚ) / rowStep⌉
    let startIndex := clamp (⌊(safeScrollTop : ℚ) / rowStep⌋ - safeOverscan) 0 (max 0 (safeCount - 1))
    let endIndexExclusive := clamp (startIndex + visibleCount + safeOverscan * 2) (startIndex + 1) safeCount
    let topPadding := startIndex * rowStep
    let renderedHeight := (endIndexExclusive - startIndex) * rowStep - safeGap
    let bottomPadding := max 0 (totalHeight - topPadding - renderedHeight)
    ⟨startIndex,endIndexExclusive,rowStep,totalHeight,topPadding,bottomPadding⟩

example : calculateDockerVirtualWindow ⟨276,420,300,none,none,none⟩ = ⟨3,11,84,23176,252,22260⟩ := by decide +kernel

/-- How high some rows in a column are. -/
def columnHeight (rows rowHeight gap : ℤ) : ℤ := if rows = 0 then 0 else rows * rowHeight + (rows - 1) * gap

section
variable {itemCount scrollTop viewportHeight rowHeight gap overscan : ℕ}

/-- The input with whole numbers. -/
def whole (itemCount scrollTop viewportHeight rowHeight gap overscan : ℕ) : DockerVirtualWindowInput :=
  ⟨itemCount,scrollTop,viewportHeight,some rowHeight,some gap,some overscan⟩

/-- The first row that is rendered, and the one behind the last, where `row` rows are scrolled away. -/
def renderedFrom (count overscan row : ℤ) : ℤ := clamp (row - overscan) 0 (count - 1)

def renderedTo (count overscan row visible : ℤ) : ℤ :=
  clamp (renderedFrom count overscan row + max 1 visible + overscan * 2) (renderedFrom count overscan row + 1) count

theorem rendered_bounds {count overscan row visible : ℤ} (hcount : 0 < count) :
    0 ≤ renderedFrom count overscan row ∧
      renderedFrom count overscan row < renderedTo count overscan row visible ∧
      renderedTo count overscan row visible ≤ count := by
  simp only [renderedFrom,renderedTo,clamp]
  omega

/-- The rows from the one at the top of the view on are rendered, as many as the view has room for and one more. -/
theorem rendered_of_visible {count overscan row visible i : ℤ} (hoverscan : 1 ≤ overscan) (hrow : 0 ≤ row)
    (hi : row ≤ i) (hcount : i < count) (hvisible : i ≤ row + visible) :
    renderedFrom count overscan row ≤ i ∧ i < renderedTo count overscan row visible := by
  simp only [renderedFrom,renderedTo,clamp]
  omega

theorem rendered_mono {count overscan row row' visible : ℤ} (h : row ≤ row') :
    renderedFrom count overscan row ≤ renderedFrom count overscan row' ∧
      renderedTo count overscan row visible ≤ renderedTo count overscan row' visible := by
  simp only [renderedFrom,renderedTo,clamp]
  omega

theorem window_of_pos (hcount : 0 < itemCount) (hrow : 1 ≤ rowHeight) :
    let step : ℤ := rowHeight + gap
    let row := ⌊(scrollTop : ℚ) / step⌋
    let visible := ⌈(viewportHeight : ℚ) / step⌉
    let first := renderedFrom itemCount overscan row
    let stop := renderedTo itemCount overscan row visible
    calculateDockerVirtualWindow (whole itemCount scrollTop viewportHeight rowHeight gap overscan) =
      ⟨first,stop,step,itemCount * step - gap,first * step,(itemCount - stop) * step⟩ := by
  intro step row visible first stop
  have hnat (n : ℕ) : max 0 (n : ℤ) = n := max_eq_right (Int.natCast_nonneg n)
  have hheight : max 1 (rowHeight : ℤ) = rowHeight := max_eq_right (by exact_mod_cast hrow)
  have hlast : max 0 ((itemCount : ℤ) - 1) = itemCount - 1 := max_eq_right (by omega)
  have hne : (itemCount : ℤ) ≠ 0 := by omega
  have hstop : stop ≤ itemCount := (rendered_bounds (by omega)).2.2
  have hstep : 0 < step := by
    simp only [step]
    omega
  have hbottom : itemCount * step - gap - first * step - ((stop - first) * step - gap) = (itemCount - stop) * step := by
    ring
  have hrest : max 0 ((itemCount - stop) * step) = (itemCount - stop) * step :=
    max_eq_right (mul_nonneg (by omega) hstep.le)
  simp only [calculateDockerVirtualWindow,whole,Option.getD_some,Int.floor_natCast,hnat,hheight,hlast,if_neg hne]
  rw [← hrest,← hbottom]
  simp only [Int.cast_natCast]
  rfl

theorem window_of_zero : calculateDockerVirtualWindow (whole 0 scrollTop viewportHeight rowHeight gap overscan) =
    ⟨0,0,max 1 rowHeight + max 0 gap,0,0,0⟩ := by
  simp [calculateDockerVirtualWindow,whole]

theorem floor_bounds (n : ℕ) {step : ℤ} (h : 0 < step) :
    ⌊(n : ℚ) / step⌋ * step ≤ n ∧ n < (⌊(n : ℚ) / step⌋ + 1) * step := by
  have hpos : (0 : ℚ) < step := by exact_mod_cast h
  have hle := Int.floor_le ((n : ℚ) / step)
  have hlt := Int.lt_floor_add_one ((n : ℚ) / step)
  rw [le_div_iff₀ hpos] at hle
  rw [div_lt_iff₀ hpos] at hlt
  exact ⟨by exact_mod_cast hle,by exact_mod_cast hlt⟩

theorem le_ceil_mul (n : ℕ) {step : ℤ} (h : 0 < step) : n ≤ ⌈(n : ℚ) / step⌉ * step := by
  have hpos : (0 : ℚ) < step := by exact_mod_cast h
  have hle := Int.le_ceil ((n : ℚ) / step)
  rw [div_le_iff₀ hpos] at hle
  exact_mod_cast hle

/-- A row that has a point in common with the view begins before the end of the view, and ends behind its start. -/
theorem row_in_view (rowHeight : ℕ) {step row visible i : ℤ} (hstep : 0 < step) (hrow : rowHeight ≤ step)
    (hscroll : row * step ≤ scrollTop ∧ scrollTop < (row + 1) * step) (hview : viewportHeight ≤ visible * step)
    (h : (Set.Ico (i * step : ℚ) (i * step + rowHeight) ∩
      Set.Ico (scrollTop : ℚ) (scrollTop + viewportHeight)).Nonempty) : row ≤ i ∧ i ≤ row + visible := by
  obtain ⟨y,⟨hfrom,hto⟩,hscrollFrom,hscrollTo⟩ := h
  have hbehind : (scrollTop : ℤ) < i * step + rowHeight := by exact_mod_cast hscrollFrom.trans_lt hto
  have hbefore : i * step < scrollTop + viewportHeight := by exact_mod_cast hfrom.trans_lt hscrollTo
  have hlow : row * step < (i + 1) * step := by linarith
  have hhigh : i * step < (row + 1 + visible) * step := by linarith
  have hrow' := lt_of_mul_lt_mul_right hlow hstep.le
  have hi := lt_of_mul_lt_mul_right hhigh hstep.le
  omega

end

/-- The rows from the first to the last that is rendered are rows of the list, every row that can be seen is among them,
they and the paddings are as high as the whole list, and they move on when the list is scrolled on. -/
theorem window_exact (itemCount scrollTop viewportHeight rowHeight gap overscan : ℕ) (hrow : 1 ≤ rowHeight)
    (hoverscan : 1 ≤ overscan) :
    let w := calculateDockerVirtualWindow (whole itemCount scrollTop viewportHeight rowHeight gap overscan)
    (0 ≤ w.startIndex ∧ w.startIndex ≤ w.endIndexExclusive ∧ w.endIndexExclusive ≤ itemCount ∧
      (0 < itemCount → w.startIndex < w.endIndexExclusive)) ∧
    (∀ i : ℕ, i < itemCount → (Set.Ico (i * w.rowStep : ℚ) (i * w.rowStep + rowHeight) ∩
        Set.Ico (scrollTop : ℚ) (scrollTop + viewportHeight)).Nonempty →
      w.startIndex ≤ i ∧ i < w.endIndexExclusive) ∧
    (w.topPadding + columnHeight (w.endIndexExclusive - w.startIndex) rowHeight gap + w.bottomPadding = w.totalHeight ∧
      w.totalHeight = columnHeight itemCount rowHeight gap) ∧
    ∀ scrollTop', scrollTop ≤ scrollTop' →
      let w' := calculateDockerVirtualWindow (whole itemCount scrollTop' viewportHeight rowHeight gap overscan)
      w.startIndex ≤ w'.startIndex ∧ w.endIndexExclusive ≤ w'.endIndexExclusive := by
  rcases Nat.eq_zero_or_pos itemCount with rfl | hcount
  · simp only [window_of_zero]
    simp [columnHeight]
  simp only [window_of_pos hcount hrow]
  set step : ℤ := rowHeight + gap with hstep
  have hpos : 0 < step := by omega
  have hscroll := floor_bounds scrollTop hpos
  set row := ⌊(scrollTop : ℚ) / step⌋
  set visible := ⌈(viewportHeight : ℚ) / step⌉
  obtain ⟨hfirst,hlt,hstop⟩ : 0 ≤ renderedFrom itemCount overscan row ∧
    renderedFrom itemCount overscan row < renderedTo itemCount overscan row visible ∧
    renderedTo itemCount overscan row visible ≤ itemCount := rendered_bounds (by omega)
  refine ⟨⟨hfirst,hlt.le,hstop,fun _ => hlt⟩,?_,⟨?_,?_⟩,?_⟩
  · intro i hi h
    have hview := row_in_view rowHeight (i := i) hpos (by omega) hscroll (le_ceil_mul viewportHeight hpos)
      (by exact_mod_cast h)
    have hzero : 0 ≤ row := Int.floor_nonneg.mpr (by positivity)
    exact rendered_of_visible (by omega) hzero hview.1 (by omega) hview.2
  · rw [columnHeight,if_neg (by omega),hstep]
    ring
  · rw [columnHeight,if_neg (by omega),hstep]
    ring
  · intro scrollTop' hle
    have hstep' : (0 : ℚ) ≤ step := by exact_mod_cast hpos.le
    exact rendered_mono (Int.floor_le_floor (div_le_div_of_nonneg_right (by exact_mod_cast hle) hstep'))

/-- A list that has shrunk to three containers below the place to which it was scrolled. -/
theorem window_exact_shrunk :
    let w := calculateDockerVirtualWindow (whole 3 8400 320 76 8 2)
    w.startIndex = 2 ∧ w.endIndexExclusive = 3 ∧
      w.topPadding + columnHeight (w.endIndexExclusive - w.startIndex) 76 8 + w.bottomPadding = w.totalHeight := by
  have h := window_exact 3 8400 320 76 8 2 (by decide) (by decide)
  exact ⟨by decide +kernel,by decide +kernel,h.2.2.1.1⟩

end DockerWindow
end Mxterm
