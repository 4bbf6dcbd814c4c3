/-! ### The states of the HAL

The values of these enumerations that a modelled function sets or tests. -/

namespace RobotCar

inductive HAL_StatusTypeDef where
  | HAL_OK
  | HAL_ERROR
  | HAL_BUSY
  deriving DecidableEq, Repr

inductive HAL_UART_StateTypeDef where
  | READY
  | BUSY_TX
  deriving DecidableEq, Repr

inductive HAL_DMA_StateTypeDef where
  | HAL_DMA_STATE_READY
  | HAL_DMA_STATE_BUSY
  deriving DecidableEq, Repr

end RobotCar
