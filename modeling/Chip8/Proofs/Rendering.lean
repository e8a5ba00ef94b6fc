import Chip8.Framebuffer
import Mathlib.Data.List.Basic

namespace Chip8.Framebuffer

/-- What stands for a pixel where the display is drawn. -/
def shade (fb : Framebuffer) (x y : Nat) : Char :=
  match fb.pixel x y with
  | .ok true => '█'
  | _ => ' '

/-- The display drawn pixel by pixel, each of its lines followed by a newline. -/
def picture (fb : Framebuffer) : String :=
  String.ofList ((List.range 32).flatMap fun y => (List.range 64).map (fb.shade · y) ++ ['\n'])

theorem pixel_eq_ok (fb : Framebuffer) {x y : Nat} {byte : UInt8} (hx : x < 64) (hy : y < 32)
    (h : fb.pixels[x + y * 64]? = some byte) : fb.pixel x y = .ok (lit byte) := by
  have hin : x + y * 64 < 2048 := by omega
  rw [pixel, dif_pos ⟨hx, hy⟩]
  rw [Vector.getElem?_eq_getElem hin, Option.some.injEq] at h
  exact congrArg (Except.ok ∘ lit) h

theorem shade_eq_block (fb : Framebuffer) {x y : Nat} {byte : UInt8} (hx : x < 64) (hy : y < 32)
    (h : fb.pixels[x + y * 64]? = some byte) : fb.shade x y = block (lit byte) := by
  rw [shade, fb.pixel_eq_ok hx hy h]
  cases lit byte <;> rfl

theorem getElem?_row {x : Nat} (hx : x < 64) (y : Nat) (fb : Framebuffer) :
    ((fb.pixels.toList.drop (y * 64)).take 64)[x]? = fb.pixels[x + y * 64]? := by
  rw [List.getElem?_take_of_lt hx, List.getElem?_drop, Nat.add_comm, Vector.getElem?_toList]

theorem map_block_row (fb : Framebuffer) {y : Nat} (hy : y < 32) :
    (((fb.pixels.toList.drop (y * 64)).take 64).map lit).map block =
      (List.range 64).map (fb.shade · y) := by
  apply List.ext_getElem?
  intro x
  by_cases hx : x < 64
  · have hin : x + y * 64 < 2048 := by omega
    have hbyte : fb.pixels[x + y * 64]? = some fb.pixels[x + y * 64] :=
      Vector.getElem?_eq_getElem hin
    simp only [List.getElem?_map, getElem?_row hx, hbyte, List.getElem?_range hx, Option.map_some,
      shade_eq_block fb hx hy hbyte]
  · rw [List.getElem?_eq_none, List.getElem?_eq_none]
    · rw [List.length_map, List.length_range]
      omega
    · rw [List.length_map, List.length_map, List.length_take]
      omega

theorem text_eq_picture (fb : Framebuffer) : fb.text = fb.picture := by
  rw [text, picture, rows, byteRows, List.map_map, List.flatMap_map]
  apply congrArg String.ofList
  apply List.flatMap_congr
  intro y hy
  exact congrArg (· ++ ['\n']) (fb.map_block_row (List.mem_range.mp hy))

end Chip8.Framebuffer
