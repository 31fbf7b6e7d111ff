/-!
# Lines

A line ends at a line feed, and a return right before the feed belongs to the ending. What
follows the last feed is a line of its own unless it is empty; a return at its end stays.
-/

namespace Courier.Text

variable {α : Type} [DecidableEq α]

/-- A line as read, newest character in front, without the return of its ending. -/
def closeLine (ret : α) : List α → List α
  | [] => []
  | c :: line => if c = ret then line.reverse else (c :: line).reverse

/-- The lines still to come, onto those already closed; both `closed` and the open `line`
have their newest element in front. -/
def linesOnto (feed ret : α) (closed : List (List α)) (line : List α) : List α → List (List α)
  | [] => if line.isEmpty then closed.reverse else (line.reverse :: closed).reverse
  | c :: rest =>
    if c = feed then linesOnto feed ret (closeLine ret line :: closed) [] rest
    else linesOnto feed ret closed (c :: line) rest

def lines (feed ret : α) (text : List α) : List (List α) :=
  linesOnto feed ret [] [] text

example : lines '\n' '\r' "a\r\nb\n\nc\r".toList = ["a".toList, "b".toList, [], "c\r".toList] := by
  decide

end Courier.Text
