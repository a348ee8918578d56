import ArrayInference.Infer.Conditional
import ArrayInference.Rules.Field

/-!
# Rules that all tracks share

Conditionals, partial application, the operators that pass their argument on, and access to the
items of constants.
-/

namespace ArrayInference

namespace Rule

/-- `return(x)` and `identity(x)`: whatever is known of `x`. -/
def passThrough : Rule := unary fun track x => Infer.get x track

/-- `partial(f, ..)`: `f` with its leading arguments bound. -/
def partially : Rule := variadic "partial needs a function" fun track f bound => do
  let inner ← Infer.inferrerOf f track
  Infer.bindArguments inner bound

/-- `if(c, f, g)`: a call of `f` or of `g`, without arguments. -/
def ifElse : Rule := ternary fun track c f g => Infer.conditional .call track c f g

/-- `switch(c, x, y)`: `x` or `y`. -/
def switch : Rule := ternary fun track c x y => Infer.conditional .select track c x y

/-- The rules that every track starts from. -/
def common : Registry :=
  Registry.empty
    |>.insert .ifElse (.exactly 3) ifElse
    |>.insert .switch (.exactly 3) switch
    |>.insert .applyPartially (.atLeast 1) partially
    |>.insertAll [.returnValue, .identity] (.exactly 1) passThrough
    |>.insert .resolve (.exactly 2) resolve

end Rule

end ArrayInference
